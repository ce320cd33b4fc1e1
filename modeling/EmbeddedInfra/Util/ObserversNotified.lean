import EmbeddedInfra.Util.HeldLists
import EmbeddedInfra.Util.Observer

/-! Observers that come and go during a notification. -/

namespace Observers

open IntrusiveSets IntrusiveLists List Function

variable {ν : Type}

theorem partPlace_congr {o : Owner} {back back' : List ν} (same : back'.head? = back.head?) :
    partPlace o back' = partPlace o back := by
  rw [partPlace, same, partPlace]

theorem Notifies.cons {subject : Nat} {actions : List (Action ν)} {stops ended : Bool} {observer : ν}
    {rest : List (Callback ν)} {back back' : List ν} {calls : List (ν × Option Nat)}
    (notifies : Notifies subject rest back' { calls := calls, ended := ended })
    (kept : ∀ stays : ν → Bool, (∀ action ∈ actions, stays action.observer = false) →
      back'.filter stays = back.filter stays) :
    Notifies subject ((actions, stops) :: rest) (observer :: back)
      { calls := (observer, some subject) :: calls, ended := ended } := by
  constructor
  · intro call member
    cases member with
    | head => rfl
    | tail _ inside => exact notifies.1 call inside
  · intro stays leave
    have ⟨part, all⟩ := notifies.2 stays fun callback member =>
      leave callback (mem_cons_of_mem _ member)
    rw [kept stays (leave (actions, stops) mem_cons_self)] at part all
    dsimp only at part all ⊢
    rw [map_cons]
    cases isStaying : stays observer with
    | true =>
      rw [filter_cons_of_pos isStaying, filter_cons_of_pos isStaying]
      exact ⟨(List.prefix_cons_inj observer).mpr part, fun ends => by rw [all ends]⟩
    | false =>
      rw [filter_cons_of_neg (by rw [isStaying]; exact nofun),
        filter_cons_of_neg (by rw [isStaying]; exact nofun)]
      exact ⟨part, all⟩

theorem notifies_nothing (subject : Nat) (callbacks : List (Callback ν)) (back : List ν) :
    Notifies subject callbacks back { calls := [], ended := false } :=
  ⟨fun _ member => (not_mem_nil member).elim, fun _ _ => ⟨List.nil_prefix, nofun⟩⟩

theorem notifies_end (subject : Nat) (callbacks : List (Callback ν)) :
    Notifies subject callbacks [] { calls := [], ended := true } :=
  ⟨fun _ member => (not_mem_nil member).elim, fun _ _ => ⟨List.nil_prefix, fun _ => rfl⟩⟩

/-- The elements of all lists. -/
def lists (order : Order ν) : Owner → List ν
  | .set subject => order subject
  | .temporary => []

/-- The lists and the observers know of the same attachments. -/
structure Represents (s : State ν) (order : Order ν) : Prop where
  holds : Holds s.observers (lists order)
  attached : ∀ observer subject, s.subject observer = some subject ↔ observer ∈ order subject

theorem represents_construct : Represents (Observers.construct ν) fun _ => [] where
  holds := by
    have nothing : lists (fun _ => [] : Order ν) = fun _ => [] := by
      funext o
      cases o <;> rfl
    rw [nothing]
    exact holds_construct
  attached _ _ := ⟨nofun, nofun⟩

variable [DecidableEq ν]

theorem filter_erase {stays : ν → Bool} {v : ν} (leaves : stays v = false) (elements : List ν) :
    (elements.erase v).filter stays = elements.filter stays := by
  induction elements with
  | nil => rfl
  | cons w rest ih =>
    by_cases same : w = v
    · rw [same, erase_cons_head, filter_cons_of_neg (by rw [leaves]; exact nofun)]
    · rw [erase_cons_tail (by simpa using same), filter_cons, filter_cons, ih]

theorem head?_erase {v : ν} {elements : List ν} (differs : elements.head? ≠ some v) :
    (elements.erase v).head? = elements.head? := by
  cases elements with
  | nil => rfl
  | cons w rest =>
    have notSame : w ≠ v := fun same => differs (congrArg some same)
    rw [erase_cons_tail (by simpa using notSame), head?_cons, head?_cons]

namespace Order

variable {order : Order ν} {subject : Nat} {front back : List ν} {observer : ν}

theorem after_eq (distinct : (order subject).Nodup)
    (shape : order subject = front ++ observer :: back) :
    order.after subject observer = back.head? := by
  have notFront : ∀ w ∈ front, decide (w ≠ observer) = true := by
    intro w inside
    rw [shape] at distinct
    have apart := (nodup_append.mp distinct).2.2 w inside observer mem_cons_self
    exact decide_eq_true apart
  rw [after, shape, dropWhile_append_of_pos notFront,
    dropWhile_cons_of_neg (by simp), tail_cons]

theorem perform_split (order : Order ν) (shape : order subject = front ++ back) (action : Action ν)
    (spares : back.head? ≠ some action.observer) :
    ∃ front' back', order.perform action subject = front' ++ back' ∧ back'.head? = back.head? ∧
      ∀ stays : ν → Bool, stays action.observer = false →
        back'.filter stays = back.filter stays := by
  have erased (v : ν) (spared : back.head? ≠ some v) :
      ∃ front' back', order.detach v subject = front' ++ back' ∧ back'.head? = back.head? ∧
        ∀ stays : ν → Bool, stays v = false → back'.filter stays = back.filter stays := by
    rw [detach, shape, erase_append]
    split
    · exact ⟨_, _, rfl, rfl, fun _ _ => rfl⟩
    · exact ⟨_, _, rfl, head?_erase spared, fun _ leaves => filter_erase leaves back⟩
  cases action with
  | detach v => exact erased v spares
  | attach v other =>
    have ⟨front', back', inTwo, first, kept⟩ := erased v spares
    by_cases same : subject = other
    · subst same
      have attached : order.perform (.attach v subject) subject = front' ++ back' ++ [v] := by
        rw [perform, attach, update_self, inTwo]
      cases back' with
      | nil =>
        refine ⟨front' ++ [v], [], ?_, first, kept⟩
        rw [attached, append_nil, append_nil]
      | cons w rest =>
        refine ⟨front', w :: rest ++ [v], by rw [attached, append_assoc], first, ?_⟩
        intro stays leaves
        have leaves : stays v = false := leaves
        rw [filter_append, kept stays leaves,
          filter_cons_of_neg (by rw [leaves]; exact nofun), filter_nil, append_nil]
    · refine ⟨front', back', ?_, first, kept⟩
      rw [perform, attach, update_of_ne same, inTwo]

theorem performAll_split {actions : List (Action ν)} (shape : order subject = front ++ back)
    (spares : ∀ action ∈ actions, back.head? ≠ some action.observer) :
    ∃ front' back', order.performAll actions subject = front' ++ back' ∧
      back'.head? = back.head? ∧
      ∀ stays : ν → Bool, (∀ action ∈ actions, stays action.observer = false) →
        back'.filter stays = back.filter stays := by
  induction actions generalizing order front back with
  | nil => exact ⟨front, back, shape, rfl, fun _ _ => rfl⟩
  | cons action rest ih =>
    have ⟨front', back', inTwo, first, kept⟩ :=
      order.perform_split shape action (spares action mem_cons_self)
    have ⟨front'', back'', inTwo', first', kept'⟩ := ih inTwo fun later member => by
      rw [first]
      exact spares later (mem_cons_of_mem _ member)
    refine ⟨front'', back'', inTwo', first'.trans first, ?_⟩
    intro stays leave
    rw [kept' stays fun later member => leave later (mem_cons_of_mem _ member),
      kept stays (leave action mem_cons_self)]

end Order

namespace Represents

variable {s : State ν} {order : Order ν}

theorem detach (represents : Represents s order) (observer : ν) :
    ∃ t, s.detach observer = some t ∧ Represents t (order.detach observer) ∧
      ∀ o, observer ∉ lists (order.detach observer) o := by
  have stored := represents.holds.stored
  have distinct : ∀ subject, (order subject).Nodup := fun subject => stored.nodup (.set subject)
  have gone : ∀ o, observer ∉ lists (order.detach observer) o := by
    intro o
    cases o with
    | set subject => exact (distinct subject).not_mem_erase
    | temporary => exact not_mem_nil
  have others : ∀ v subject, update s.subject observer none v = some subject ↔
      v ∈ order.detach observer subject := by
    intro v subject
    by_cases same : v = observer
    · rw [same, update_self]
      exact ⟨nofun, fun member => absurd member (distinct subject).not_mem_erase⟩
    · rw [update_of_ne same, represents.attached, Order.detach, mem_erase_of_ne same]
  rw [State.detach]
  cases isAttached : s.subject observer with
  | none =>
    refine ⟨_, rfl, ⟨?_, others⟩, gone⟩
    have same : order.detach observer = order := by
      funext subject
      apply erase_of_not_mem
      rw [← represents.attached, isAttached]
      exact nofun
    rw [same]
    exact represents.holds
  | some subject =>
    have member := (represents.attached observer subject).mp isAttached
    have only : ∀ o, o ≠ .set subject → observer ∉ lists order o := fun o differs inside =>
      differs (stored.apart inside (show observer ∈ lists order (.set subject) from member))
    obtain ⟨observers, erases, next⟩ := represents.holds.erase only
    dsimp only
    rw [State.unregisterObserver, erases, Option.map_some, Option.map_some]
    refine ⟨_, rfl, ⟨?_, others⟩, gone⟩
    have same : lists (order.detach observer) = update (lists order) (.set subject)
        ((lists order (.set subject)).erase observer) := by
      funext o
      by_cases here : o = .set subject
      · rw [here, update_self]
        rfl
      · rw [update_of_ne here]
        cases o with
        | set i => exact erase_of_not_mem (only _ here)
        | temporary => rfl
    rw [same]
    exact next

theorem attach (represents : Represents s order) (observer : ν) (subject : Nat) :
    ∃ t, s.attach observer subject = some t ∧ Represents t (order.attach observer subject) := by
  obtain ⟨t, detaches, next, gone⟩ := represents.detach observer
  refine ⟨_, by rw [State.attach, detaches, Option.map_some], ?_, ?_⟩
  · have same : lists (order.attach observer subject) =
        update (lists (order.detach observer)) (.set subject)
          (lists (order.detach observer) (.set subject) ++ [observer]) := by
      funext o
      by_cases here : o = .set subject
      · rw [here, update_self]
        exact update_self _ _ _
      · rw [update_of_ne here]
        cases o with
        | set i => exact update_of_ne (fun equal => here (congrArg _ equal)) _ _
        | temporary => rfl
    rw [same]
    exact next.holds.pushBack (.set subject) gone
  · intro v i
    change update t.subject observer (some subject) v = some i ↔ _
    rw [Order.attach]
    by_cases here : i = subject
    · rw [here, update_self, mem_append, mem_singleton, ← next.attached]
      by_cases same : v = observer
      · rw [same, update_self]
        exact ⟨fun _ => .inr rfl, fun _ => rfl⟩
      · rw [update_of_ne same]
        exact ⟨.inl, fun either => either.resolve_right same⟩
    · rw [update_of_ne here, ← next.attached]
      by_cases same : v = observer
      · rw [same, update_self, next.attached]
        exact ⟨fun equal => absurd (Option.some.inj equal).symm here,
          fun member => absurd member (gone (.set i))⟩
      · rw [update_of_ne same]

theorem perform (represents : Represents s order) (action : Action ν) :
    ∃ t, s.perform action = some t ∧ Represents t (order.perform action) := by
  cases action with
  | attach observer subject => exact represents.attach observer subject
  | detach observer =>
    have ⟨t, detaches, next, _⟩ := represents.detach observer
    exact ⟨t, detaches, next⟩

theorem performAll (represents : Represents s order) (actions : List (Action ν)) :
    ∃ t, s.performAll actions = some t ∧ Represents t (order.performAll actions) := by
  induction actions generalizing s order with
  | nil => exact ⟨s, rfl, represents⟩
  | cons action rest ih =>
    have ⟨t, performs, next⟩ := represents.perform action
    have ⟨u, later, last⟩ := ih next
    exact ⟨u, by rw [State.performAll, performs, Option.bind_some, later], last⟩

end Represents

theorem notifyLoop_spec {subject : Nat} {callbacks : List (Callback ν)} {s : State ν}
    {order : Order ν} {front back : List ν} (represents : Represents s order)
    (shape : order subject = front ++ back)
    (spares : Order.Spares subject callbacks order back.head?) :
    ∃ run, State.notifyLoop subject callbacks s (some (partPlace (.set subject) back)) = some run ∧
      Notifies subject callbacks back run := by
  induction callbacks generalizing s order front back with
  | nil =>
    cases back with
    | nil => exact ⟨_, if_pos rfl, notifies_end subject []⟩
    | cons observer rest => exact ⟨_, if_neg nofun, notifies_nothing subject [] _⟩
  | cons callback later ih =>
    cases back with
    | nil => exact ⟨_, if_pos rfl, notifies_end subject _⟩
    | cons observer rest =>
      obtain ⟨actions, stops⟩ := callback
      have stored := represents.holds.stored
      have isAttached : s.subject observer = some subject := by
        rw [represents.attached, shape]
        exact mem_append_right _ mem_cons_self
      have isNext : s.observers.next (.node observer) = some (partPlace (.set subject) rest) := by
        rw [← partPlace_eq]
        exact stored.next_eq (show lists order (.set subject) = _ from shape)
      have isAfter : order.after subject observer = rest.head? :=
        Order.after_eq (stored.nodup (.set subject)) shape
      obtain ⟨spared, sparesLater⟩ := spares
      rw [isAfter] at spared sparesLater
      obtain ⟨t, performs, next⟩ := represents.performAll actions
      have longer : order subject = (front ++ [observer]) ++ rest := by rw [shape]; simp
      obtain ⟨front', rest', inTwo, first, kept⟩ := Order.performAll_split longer spared
      have notEnd : some (partPlace (.set subject) (observer :: rest)) ≠
          some (Place.last (.set subject)) := nofun
      have looped : State.notifyLoop subject ((actions, stops) :: later) s
          (some (partPlace (.set subject) (observer :: rest))) =
            if stops then some { calls := [(observer, some subject)], ended := false }
            else
              (State.notifyLoop subject later t (some (partPlace (.set subject) rest))).map
                fun run => { run with calls := (observer, some subject) :: run.calls } := by
        refine (if_neg notEnd).trans ?_
        change (s.performAll actions).bind _ = _
        rw [performs, isNext, isAttached, Option.bind_some]
      rw [looped]
      cases stops with
      | true =>
        exact ⟨_, rfl, (notifies_nothing subject later rest').cons kept⟩
      | false =>
        have sparesNext := sparesLater rfl
        rw [← first] at sparesNext
        obtain ⟨run, runs, notifies⟩ := ih next inTwo sparesNext
        rw [partPlace_congr first] at runs
        refine ⟨_, by rw [runs]; rfl, ?_⟩
        exact notifies.cons kept

end Observers
