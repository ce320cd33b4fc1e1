import EmbeddedInfra.Event.Requests

/-! What the resource and its claimers know of the requests, in every state. -/

namespace Event

open List
open Function (comp_apply update update_eq_self update_idem update_of_ne update_self)

/-! ### The resource and the history -/

/-- The resource has granted what was in turn, and knows of the rest. -/
structure InTurn (s : ClaimableResource) (h : History) : Prop where
  count : s.requests = h.asked
  pending : s.pendingClaims = claimers (inTurn h.waiting)
  distinct : (claimers h.waiting).Nodup
  current : claimers h.active = s.currentClaim.toList
  knows : ∀ c k, s.claimers c = some k → k = h.view c
  alive : ∀ c ∈ claimers h.waiting ++ claimers h.active, (s.claimers c).isSome
  partition : (numbers h.waiting ++ numbers h.active ++ h.released).Perm (List.range h.asked)
  once : s.called.Nodup
  calledOf : ∀ n ∈ s.called, n < h.asked ∧ n ∉ numbers h.waiting
  activeCalled : ∀ n ∈ numbers h.active, n ∈ s.called
  flag : s.scheduled = if s.reEvaluateClaimScheduled then 1 else 0
  due : s.currentClaim = none → s.pendingClaims ≠ [] → s.reEvaluateClaimScheduled = true

theorem InTurn.initial : InTurn {} {} where
  count := rfl
  pending := rfl
  distinct := nodup_nil
  current := rfl
  knows := nofun
  alive := nofun
  partition := .refl _
  once := nodup_nil
  calledOf := nofun
  activeCalled := nofun
  flag := rfl
  due := fun _ some => absurd rfl some

/-! ### The claimers of the resource -/

namespace ClaimableResource

theorem put_put (s : ClaimableResource) (claimer : Nat) (k k' : Claimer) :
    (s.put claimer k).put claimer k' = s.put claimer k' := by
  simp [put]

variable {s : ClaimableResource} {claimer : Nat}

theorem put_same {k : Claimer} (here : s.claimers claimer = some k) : s.put claimer k = s := by
  rw [put, ← here, update_eq_self]

theorem removeClaim_current (current : s.currentClaim = some claimer) :
    s.removeClaim claimer = { s with
      currentClaim := none
      reEvaluateClaimScheduled := true
      scheduled := s.scheduled + if s.reEvaluateClaimScheduled then 0 else 1 } := by
  rw [removeClaim, if_pos current, scheduleReEvaluateClaim]
  cases s.reEvaluateClaimScheduled <;> simp

theorem removeClaim_pending (notCurrent : s.currentClaim ≠ some claimer) :
    s.removeClaim claimer = { s with pendingClaims := s.pendingClaims.erase claimer } := by
  rw [removeClaim, if_neg notCurrent]
  by_cases pending : s.pendingClaims = []
  · rw [if_neg (not_not_intro pending)]
    cases s
    simp_all
  · rw [if_pos pending, dequeueClaimer]

theorem removeClaim_put (s : ClaimableResource) (claimer other : Nat) (k : Claimer) :
    (s.put other k).removeClaim claimer = (s.removeClaim claimer).put other k := by
  by_cases current : s.currentClaim = some claimer
  · rw [removeClaim_current current, removeClaim_current (s := s.put other k) current]
    rfl
  · rw [removeClaim_pending current, removeClaim_pending (s := s.put other k) current]
    rfl

theorem put_takeOver (s : ClaimableResource) (claimer other : Nat) (k k' : Claimer) :
    (s.put claimer k').takeOver claimer other k = s.takeOver claimer other k := by
  rw [takeOver, takeOver, put_put]

theorem releaseAllClaims_idle {k : Claimer} (here : s.claimers claimer = some k) :
    ∃ known, (s.releaseAllClaims claimer k).claimers claimer = some known ∧
      known.isQueued = false ∧ known.isGranted = false := by
  refine ⟨{ k with isQueued := false, isGranted := false }, ?_, rfl, rfl⟩
  have put_claimers : ∀ (s : ClaimableResource) (k : Claimer),
      (s.put claimer k).claimers claimer = some k := fun s k => update_self _ _ _
  cases granted : k.isGranted <;> cases queued : k.isQueued <;>
    simp only [releaseAllClaims, releaseBase, removeClaim_put, granted, queued, put_claimers,
      Bool.false_eq_true, if_true, if_false, here]
  cases k
  simp only at granted queued
  rw [granted, queued]

end ClaimableResource

namespace InTurn

variable {s : ClaimableResource} {h : History} {c : Nat} {k : Claimer}

section

variable (turn : InTurn s h)

include turn

theorem distinct_inTurn : s.pendingClaims.Nodup := by
  rw [turn.pending]
  exact ((inTurn_perm h.waiting).map _).nodup_iff.mpr turn.distinct

theorem isGranted_iff (here : s.claimers c = some k) :
    k.isGranted = true ↔ s.currentClaim = some c := by
  have granted : k.isGranted = true ↔ c ∈ claimers h.active := by
    rw [turn.knows c k here]
    simp [History.view, own_eq_nil]
  rw [granted, turn.current]
  simp

theorem isQueued_iff (here : s.claimers c = some k) :
    k.isQueued = true ↔ c ∈ claimers h.waiting := by
  rw [turn.knows c k here]
  simp [History.view, own_eq_nil]

theorem onGranted_eq_none (here : s.claimers c = some k) :
    k.onGranted = none ↔ c ∉ claimers h.waiting := by
  rw [turn.knows c k here, ← own_eq_nil]
  simp [History.view]

theorem forget (notWaiting : c ∉ claimers h.waiting) (notActive : c ∉ claimers h.active)
    {known : Option Claimer} (idle : known = none ∨ known = some {}) :
    InTurn { s with claimers := update s.claimers c known } h where
  count := turn.count
  pending := turn.pending
  distinct := turn.distinct
  current := turn.current
  knows := by
    intro other k' there
    by_cases equal : other = c
    · subst equal
      simp only [update_self] at there
      rcases idle with gone | empty
      · exact nomatch gone.symm.trans there
      · have none := Option.some.inj (empty.symm.trans there)
        rw [← none]
        simp [History.view, own_eq_nil.mpr notWaiting, own_eq_nil.mpr notActive]
    · simp only [update_of_ne equal] at there
      exact turn.knows other k' there
  alive := by
    intro other member
    have differs : other ≠ c := by
      rintro rfl
      rcases mem_append.mp member with waits | active
      · exact notWaiting waits
      · exact notActive active
    simp only [update_of_ne differs]
    exact turn.alive other member
  partition := turn.partition
  once := turn.once
  calledOf := turn.calledOf
  activeCalled := turn.activeCalled
  flag := turn.flag
  due := turn.due

theorem finish (here : s.claimers c = some k) (granted : k.isGranted = true) :
    InTurn ((s.removeClaim c).put c { k with isGranted := false }) (h.finish c) := by
  have current := (turn.isGranted_iff here).mp granted
  obtain ⟨request, active, claimed⟩ : ∃ request, h.active = [request] ∧ request.claimer = c := by
    have only := turn.current
    rw [current] at only
    obtain ⟨request, active, claimed⟩ := map_eq_singleton_iff.mp only
    exact ⟨request, active, claimed⟩
  have finished : h.finish c =
      { h with active := [], released := h.released ++ [request.number] } := by
    simp [History.finish, own, active, claimed, numbers]
  rw [ClaimableResource.removeClaim_current current, finished]
  constructor
  · exact turn.count
  · exact turn.pending
  · exact turn.distinct
  · rfl
  · intro other k' there
    by_cases equal : other = c
    · subst equal
      simp only [ClaimableResource.put, update_self, Option.some.injEq] at there
      rw [← there, turn.knows other k here]
      rfl
    · simp only [ClaimableResource.put, update_of_ne equal] at there
      rw [turn.knows other k' there]
      have differs : request.claimer ≠ other := fun same => equal (same ▸ claimed)
      simp [History.view, own, active, differs]
  · intro other member
    rw [claimers, claimers, map_nil, append_nil] at member
    by_cases equal : other = c
    · simp [ClaimableResource.put, equal]
    · simp only [ClaimableResource.put, update_of_ne equal]
      exact turn.alive other (mem_append_left _ member)
  · have same := turn.partition
    rw [active] at same
    refine List.Perm.trans ?_ same
    simp only [numbers, map_nil, append_nil, map_singleton, append_assoc]
    exact perm_append_comm.append_left _
  · exact turn.once
  · exact turn.calledOf
  · intros
    contradiction
  · have flag := turn.flag
    cases scheduled : s.reEvaluateClaimScheduled <;>
      simp [ClaimableResource.put, flag, scheduled]
  · exact fun _ _ => rfl

theorem withdraw (alive : (s.claimers c).isSome) (notActive : c ∉ claimers h.active) :
    InTurn ((s.removeClaim c).put c {}) (h.withdraw c) := by
  have notCurrent : s.currentClaim ≠ some c := by
    intro current
    apply notActive
    rw [turn.current, current]
    exact mem_singleton_self c
  rw [ClaimableResource.removeClaim_pending notCurrent]
  constructor
  · exact turn.count
  · change s.pendingClaims.erase c = claimers (inTurn (h.waiting.filter (·.claimer ≠ c)))
    rw [turn.distinct_inTurn.erase_eq_filter, turn.pending, inTurn_filter, claimers_filter_ne]
    apply filter_congr
    intro other _
    by_cases equal : other = c <;> simp [equal]
  · change (claimers (h.waiting.filter (·.claimer ≠ c))).Nodup
    rw [claimers_filter_ne]
    exact turn.distinct.filter _
  · exact turn.current
  · intro other k' there
    by_cases equal : other = c
    · subst equal
      simp only [ClaimableResource.put, update_self, Option.some.injEq] at there
      rw [← there]
      simp only [History.view, History.withdraw, own_withdrawn, own_eq_nil.mpr notActive]
      rfl
    · simp only [ClaimableResource.put, update_of_ne equal] at there
      rw [turn.knows other k' there]
      simp only [History.view, History.withdraw, own_other _ equal]
  · intro other member
    by_cases equal : other = c
    · simp [ClaimableResource.put, equal]
    · simp only [ClaimableResource.put, update_of_ne equal]
      apply turn.alive
      rcases mem_append.mp member with waits | active
      · rw [History.withdraw, claimers_filter_ne] at waits
        exact mem_append_left _ (mem_of_mem_filter waits)
      · exact mem_append_right _ active
  · refine List.Perm.trans ?_ turn.partition
    simp only [History.withdraw]
    calc
      _ = numbers (h.waiting.filter (·.claimer ≠ c)) ++
          ((numbers h.active ++ h.released) ++ numbers (own h.waiting c)) := by
        simp only [append_assoc]
      List.Perm _ (numbers (h.waiting.filter (·.claimer ≠ c)) ++
          (numbers (own h.waiting c) ++ (numbers h.active ++ h.released))) :=
        perm_append_comm.append_left _
      _ = (numbers (h.waiting.filter (·.claimer ≠ c)) ++ numbers (own h.waiting c)) ++
          (numbers h.active ++ h.released) := by
        simp only [append_assoc]
      List.Perm _ (numbers h.waiting ++ (numbers h.active ++ h.released)) :=
        (numbers_split_perm h.waiting c).append_right _
      _ = _ := by simp only [append_assoc]
  · exact turn.once
  · intro n called
    have ⟨asked, notWaiting⟩ := turn.calledOf n called
    refine ⟨asked, fun waits => notWaiting ?_⟩
    have ⟨request, member, number⟩ := mem_map.mp waits
    exact mem_map.mpr ⟨request, mem_of_mem_filter member, number⟩
  · exact turn.activeCalled
  · exact turn.flag
  · intro current pending
    apply turn.due current
    rintro empty
    exact pending (by simp [ClaimableResource.put, empty])

theorem releaseWaiting (here : s.claimers c = some k) (notGranted : k.isGranted = false) :
    InTurn ((s.releaseBase c k).put c {}) (h.withdraw c) := by
  have notActive : c ∉ claimers h.active := by
    rw [turn.current]
    intro member
    have current := (turn.isGranted_iff here).mpr (Option.mem_toList.mp member)
    exact absurd (notGranted.symm.trans current) Bool.false_ne_true
  rw [ClaimableResource.releaseBase, ClaimableResource.removeClaim_put, ClaimableResource.put_put]
  exact turn.withdraw (by rw [here]; rfl) notActive

theorem releaseGranted (here : s.claimers c = some k) (granted : k.isGranted = true) :
    InTurn (s.releaseBase c k) (h.finish c) := by
  rw [ClaimableResource.releaseBase, ClaimableResource.removeClaim_put]
  simpa [granted] using turn.finish here granted

theorem release (here : s.claimers c = some k) :
    InTurn (s.releaseBase c (if k.isGranted then k else { k with onGranted := none }))
      (h.release c) := by
  have active : c ∈ claimers h.active ↔ k.isGranted = true := by
    rw [turn.isGranted_iff here, turn.current]
    exact Option.mem_toList
  cases granted : k.isGranted with
  | true =>
    rw [if_pos rfl, History.release, if_pos (active.mpr granted)]
    exact turn.releaseGranted here granted
  | false =>
    have inactive : c ∉ claimers h.active := fun member =>
      absurd (granted.symm.trans (active.mp member)) Bool.false_ne_true
    rw [if_neg Bool.false_ne_true, History.release, if_neg inactive]
    have released := turn.releaseWaiting here granted
    rw [ClaimableResource.releaseBase, ClaimableResource.removeClaim_put,
      ClaimableResource.put_put] at released
    rw [ClaimableResource.releaseBase, ClaimableResource.removeClaim_put]
    simpa [granted] using released

theorem releaseQueued (here : s.claimers c = some k) (notGranted : k.isGranted = false) :
    InTurn ((if k.isQueued then s.releaseBase c k else s).put c {}) (h.withdraw c) := by
  cases queued : k.isQueued with
  | true => exact turn.releaseWaiting here notGranted
  | false =>
    have notWaiting : c ∉ claimers h.waiting := fun member =>
      absurd (queued.symm.trans ((turn.isQueued_iff here).mpr member)) Bool.false_ne_true
    have unheard := (turn.onGranted_eq_none here).mpr notWaiting
    have idle : k = {} := by
      cases k
      simp_all
    have unchanged : h.withdraw c = h := by
      rw [History.withdraw, filter_ne_eq_self notWaiting, own_eq_nil.mpr notWaiting, numbers,
        map_nil, append_nil]
    rw [if_neg Bool.false_ne_true, unchanged, ClaimableResource.put_same (idle ▸ here)]
    exact turn

theorem releaseAll (here : s.claimers c = some k) :
    InTurn ((s.releaseAllClaims c k).put c {}) ((h.finish c).withdraw c) := by
  rw [ClaimableResource.releaseAllClaims]
  cases granted : k.isGranted with
  | true =>
    have finished := turn.releaseGranted here granted
    have left : (s.releaseBase c k).claimers c = some { k with isGranted := false } := by
      rw [ClaimableResource.releaseBase, ClaimableResource.removeClaim_put]
      simp [ClaimableResource.put, granted]
    exact finished.releaseQueued left rfl
  | false =>
    have inactive : c ∉ claimers h.active := by
      rw [turn.current]
      intro member
      have current := (turn.isGranted_iff here).mpr (Option.mem_toList.mp member)
      exact absurd (granted.symm.trans current) Bool.false_ne_true
    have unchanged : h.finish c = h := by
      rw [History.finish, filter_ne_eq_self inactive, own_eq_nil.mpr inactive, numbers,
        map_nil, append_nil]
    have same : { k with isGranted := false } = k := by rw [← granted]
    rw [if_neg Bool.false_ne_true, unchanged, same]
    exact turn.releaseQueued here granted

theorem takeOver_eq {other : Nat} (there : s.claimers other = some k) :
    s.takeOver c other k =
      { (s.put c k).put other {} with
        currentClaim := s.currentClaim.map fun claimer => if claimer = other then c else claimer
        pendingClaims :=
          s.pendingClaims.map fun claimer => if claimer = other then c else claimer } := by
  have pending := replace_eq_map turn.distinct_inTurn c other
  have current : s.currentClaim.map (fun claimer => if claimer = other then c else claimer) =
      if s.currentClaim = some other then some c else s.currentClaim := by
    cases s.currentClaim with
    | none => rfl
    | some claimer =>
      by_cases same : claimer = other <;> simp [same]
  rw [ClaimableResource.takeOver, current, ← pending]
  cases involved : k.isQueued || k.isGranted with
  | true => rfl
  | false =>
    have ⟨notQueued, notGranted⟩ := Bool.or_eq_false_iff.mp involved
    have notPending : other ∉ s.pendingClaims := by
      rw [turn.pending]
      intro member
      have waits := (((inTurn_perm h.waiting).map _).mem_iff).mp member
      exact absurd (notQueued.symm.trans ((turn.isQueued_iff there).mpr waits)) Bool.false_ne_true
    have notCurrent : s.currentClaim ≠ some other := fun claimed =>
      absurd (notGranted.symm.trans ((turn.isGranted_iff there).mpr claimed)) Bool.false_ne_true
    rw [if_neg Bool.false_ne_true, if_neg notCurrent, replace_of_not_mem notPending]
    rfl

theorem rename {other : Nat} (there : s.claimers other = some k)
    (notWaiting : c ∉ claimers h.waiting) (notActive : c ∉ claimers h.active) (differs : c ≠ other) :
    InTurn (s.takeOver c other k) (h.rename c other) := by
  rw [turn.takeOver_eq there]
  constructor
  · exact turn.count
  · simp only [History.rename, inTurn_rename, claimers_rename, turn.pending]
  · simp only [History.rename, claimers_rename]
    apply List.Nodup.map_on _ turn.distinct
    intro x xIn y yIn same
    have xNew : x ≠ c := fun equal => notWaiting (equal ▸ xIn)
    have yNew : y ≠ c := fun equal => notWaiting (equal ▸ yIn)
    split_ifs at same with xOld yOld yOld
    · exact xOld.trans yOld.symm
    · exact absurd same.symm yNew
    · exact absurd same xNew
    · exact same
  · simp only [History.rename, claimers_rename, turn.current]
    cases s.currentClaim <;> rfl
  · intro claimer known found
    by_cases old : claimer = other
    · subst old
      simp only [ClaimableResource.put, update_self, Option.some.injEq] at found
      rw [← found]
      simp only [History.view, History.rename, own_rename_old _ differs]
      rfl
    simp only [ClaimableResource.put, update_of_ne old] at found
    by_cases new : claimer = c
    · subst new
      simp only [update_self, Option.some.injEq] at found
      have numbered : Request.number ∘ Request.rename claimer other = Request.number := by
        funext request
        simp only [comp_apply, Request.rename]
        split <;> rfl
      rw [← found, turn.knows other k there]
      simp only [History.view, History.rename, own_rename_new notWaiting, own_rename_new notActive,
        isEmpty_map, head?_map, Option.map_map, numbered]
    · simp only [update_of_ne new] at found
      rw [turn.knows claimer known found]
      simp only [History.view, History.rename, own_rename_other _ new old]
  · intro claimer member
    simp only [History.rename, claimers_rename, ← map_append] at member
    obtain ⟨before, requested, renamed⟩ := mem_map.mp member
    have lives := turn.alive before requested
    split_ifs at renamed with moved
    · subst renamed
      simp [ClaimableResource.put, update_of_ne differs]
    · subst renamed
      by_cases new : before = c
      · subst new
        simp [ClaimableResource.put, update_of_ne moved]
      · simpa [ClaimableResource.put, update_of_ne moved, update_of_ne new]
          using lives
  · simp only [History.rename, numbers_rename]
    exact turn.partition
  · exact turn.once
  · simp only [History.rename, numbers_rename]
    exact turn.calledOf
  · simp only [History.rename, numbers_rename]
    exact turn.activeCalled
  · exact turn.flag
  · intro idle pending
    apply turn.due
    · exact Option.map_eq_none_iff.mp idle
    · rintro empty
      exact pending (by simp [empty])

theorem ask (here : s.claimers c = some k) (unheard : k.onGranted = none) (urgent : Bool) :
    InTurn ({ s.put c { k with onGranted := some s.requests, isQueued := true } with
      requests := s.requests + 1 }.addClaim c urgent) (h.ask c urgent) := by
  have notWaiting := (turn.onGranted_eq_none here).mp unheard
  have added : { s.put c { k with onGranted := some s.requests, isQueued := true } with
      requests := s.requests + 1 }.addClaim c urgent =
        { s.put c { k with onGranted := some s.requests, isQueued := true } with
          requests := s.requests + 1
          pendingClaims := if urgent then c :: s.pendingClaims else s.pendingClaims ++ [c]
          reEvaluateClaimScheduled :=
            if s.currentClaim = none then true else s.reEvaluateClaimScheduled
          scheduled := if s.currentClaim = none ∧ s.reEvaluateClaimScheduled = false
            then s.scheduled + 1 else s.scheduled } := by
    rw [ClaimableResource.addClaim]
    cases urgent <;> cases current : s.currentClaim <;>
      cases scheduled : s.reEvaluateClaimScheduled <;>
      simp [ClaimableResource.enqueueClaimer, ClaimableResource.scheduleReEvaluateClaim,
        ClaimableResource.put, current, scheduled]
  rw [added]
  have fresh : h.asked ∉ numbers h.waiting ++ numbers h.active ++ h.released := fun member =>
    absurd (mem_range.mp (turn.partition.mem_iff.mp member)) (Nat.lt_irrefl _)
  constructor
  · simp [History.ask, turn.count]
  · simp only [History.ask, inTurn_append, turn.pending]
    cases urgent <;> simp [claimers]
  · simp only [History.ask, claimers, map_append, map_singleton]
    apply List.Nodup.append turn.distinct (nodup_singleton _)
    intro other waits here
    exact notWaiting (mem_singleton.mp here ▸ waits)
  · exact turn.current
  · intro other known found
    by_cases equal : other = c
    · subst equal
      simp only [ClaimableResource.put, update_self, Option.some.injEq] at found
      rw [← found, turn.knows other k here]
      have none := own_eq_nil.mpr notWaiting
      rw [own] at none
      simp [History.view, History.ask, own, none, turn.count]
    · simp only [ClaimableResource.put, update_of_ne equal] at found
      rw [turn.knows other known found]
      simp [History.view, History.ask, own, Ne.symm equal]
  · intro other member
    by_cases equal : other = c
    · simp [ClaimableResource.put, equal]
    · simp only [ClaimableResource.put, update_of_ne equal]
      apply turn.alive
      simpa [History.ask, claimers, equal] using member
  · simp only [History.ask, numbers, map_append, map_singleton, range_succ]
    have grown := turn.partition.append_right [h.asked]
    refine List.Perm.trans ?_ grown
    simp only [numbers, append_assoc]
    apply List.Perm.append_left
    exact perm_append_comm.trans (by simp)
  · exact turn.once
  · intro n called
    obtain ⟨asked, notIn⟩ := turn.calledOf n called
    refine ⟨Nat.lt_succ_of_lt asked, ?_⟩
    simp only [History.ask, numbers, map_append, map_singleton, mem_append,
      mem_singleton]
    rintro (waits | new)
    · exact notIn waits
    · exact absurd asked (by omega)
  · exact turn.activeCalled
  · have flag := turn.flag
    cases scheduled : s.reEvaluateClaimScheduled <;> cases current : s.currentClaim <;>
      simp [flag, scheduled]
  · intro idle _
    exact if_pos idle

end

/-! ### Calls -/

theorem finish_withdraw_free (h : History) (c : Nat) :
    c ∉ claimers ((h.finish c).withdraw c).waiting ∧
      c ∉ claimers ((h.finish c).withdraw c).active := by
  simp only [History.finish, History.withdraw, claimers_filter_ne]
  simp

variable {t : ClaimableResource}

theorem perform {call : Call} (turn : InTurn s h) (performs : s.perform call = some t) :
    InTurn t (h.perform call) := by
  cases call with
  | construct claimer =>
    cases here : s.claimers claimer with
    | some k => simp [ClaimableResource.perform, here] at performs
    | none =>
      simp only [ClaimableResource.perform, here, Option.some.injEq] at performs
      have unknown : claimer ∉ claimers h.waiting ++ claimers h.active := by
        intro member
        have lives := turn.alive claimer member
        simp [here] at lives
      rw [mem_append, not_or] at unknown
      rw [← performs]
      exact turn.forget unknown.1 unknown.2 (.inr rfl)
  | claim claimer urgent =>
    cases here : s.claimers claimer with
    | none => simp [ClaimableResource.perform, here] at performs
    | some k =>
      simp only [ClaimableResource.perform, here, ne_eq, ite_not] at performs
      split at performs
      case isTrue unheard =>
        rw [← Option.some.inj performs]
        exact turn.ask here unheard urgent
      case isFalse => exact nomatch performs
  | release claimer =>
    cases here : s.claimers claimer with
    | none => simp [ClaimableResource.perform, here] at performs
    | some k =>
      simp only [ClaimableResource.perform, here, Option.some.injEq] at performs
      rw [← performs]
      exact turn.release here
  | moveConstruct claimer other =>
    cases here : s.claimers claimer with
    | some k => simp [ClaimableResource.perform, here] at performs
    | none =>
      cases there : s.claimers other with
      | none => simp [ClaimableResource.perform, here, there] at performs
      | some k =>
        simp only [ClaimableResource.perform, here, there, Option.some.injEq] at performs
        have unknown : claimer ∉ claimers h.waiting ++ claimers h.active := by
          intro member
          have lives := turn.alive claimer member
          simp [here] at lives
        rw [mem_append, not_or] at unknown
        rw [← performs]
        refine turn.rename there unknown.1 unknown.2 ?_
        rintro rfl
        exact nomatch here.symm.trans there
  | moveAssign claimer other =>
    cases here : s.claimers claimer with
    | none => simp [ClaimableResource.perform, here] at performs
    | some k =>
      have released := turn.releaseAll here
      have ⟨notWaiting, notActive⟩ := finish_withdraw_free h claimer
      by_cases same : claimer = other
      · subst same
        have ⟨known, found, notQueued, notGranted⟩ := ClaimableResource.releaseAllClaims_idle here
        simp only [ClaimableResource.perform, here, found, ClaimableResource.takeOver, notQueued,
          notGranted, ClaimableResource.put_put, Bool.or_false, Bool.false_eq_true, if_false,
          Option.some.injEq] at performs
        rw [← performs, History.perform, History.rename, rename_self, rename_self]
        exact released
      · simp only [ClaimableResource.perform, here] at performs
        cases there : (s.releaseAllClaims claimer k).claimers other with
        | none => simp [there] at performs
        | some known =>
          simp only [there, Option.some.injEq] at performs
          have kept : ((s.releaseAllClaims claimer k).put claimer {}).claimers other =
              some known := by
            rw [← there]
            exact update_of_ne (Ne.symm same) _ _
          have moved := released.rename kept notWaiting notActive same
          rw [ClaimableResource.put_takeOver] at moved
          rw [← performs]
          exact moved
  | destroy claimer =>
    cases here : s.claimers claimer with
    | none => simp [ClaimableResource.perform, here] at performs
    | some k =>
      simp only [ClaimableResource.perform, here, Option.some.injEq] at performs
      have ⟨notWaiting, notActive⟩ := finish_withdraw_free h claimer
      have gone := (turn.releaseAll here).forget notWaiting notActive (.inl rfl)
      simp only [ClaimableResource.put, update_idem] at gone
      rw [← performs]
      exact gone

theorem performAll {calls : List Call} (turn : InTurn s h) (performs : s.performAll calls = some t) :
    InTurn t (calls.foldl History.perform h) := by
  induction calls generalizing s h with
  | nil => exact Option.some.inj performs ▸ turn
  | cons call rest ih =>
    have ⟨next, first, remaining⟩ := Option.bind_eq_some_iff.mp performs
    exact ih (turn.perform first) remaining

/-! ### The evaluation -/

theorem first (turn : InTurn s h) {request : Request} {others : List Request}
    (inOrder : inTurn h.waiting = request :: others) :
    ∃ k, s.claimers request.claimer = some k ∧ k.onGranted = some request.number := by
  have member : request ∈ h.waiting := mem_inTurn.mp (by simp [inOrder])
  have lives := turn.alive request.claimer (mem_append_left _ (mem_map_of_mem member))
  have ⟨k, here⟩ := Option.isSome_iff_exists.mp lives
  refine ⟨k, here, ?_⟩
  rw [turn.knows _ _ here]
  simp [History.view, own_of_mem turn.distinct member]

theorem granted (turn : InTurn s h) {request : Request} {others : List Request}
    (inOrder : inTurn h.waiting = request :: others) (inactive : h.active = []) :
    InTurn { s with
        currentClaim := some request.claimer
        pendingClaims := claimers others
        reEvaluateClaimScheduled := false
        claimers := update s.claimers request.claimer
          (some { isQueued := false, isGranted := true, onGranted := none })
        scheduled := 0
        called := s.called ++ [request.number] }
      { h with waiting := h.waiting.filter (· ≠ request), active := [request] } := by
  have member : request ∈ h.waiting := mem_inTurn.mp (by simp [inOrder])
  have owned := own_of_mem turn.distinct member
  have distinct := turn.distinct_inTurn
  rw [turn.pending, inOrder] at distinct
  obtain ⟨notIn, _⟩ := nodup_cons.mp distinct
  have split := numbers_split_perm h.waiting request.claimer
  rw [owned] at split
  have numbersDistinct : (numbers h.waiting).Nodup := by
    have all := turn.partition.nodup_iff.mpr nodup_range
    exact (nodup_append.mp (nodup_append.mp all).1).1
  have notLeft : request.number ∉
      numbers (h.waiting.filter (·.claimer ≠ request.claimer)) := by
    intro left
    have apart := split.nodup_iff.mpr numbersDistinct
    exact (nodup_append.mp apart).2.2 _ left _ (mem_singleton_self _) rfl
  have leftSubset : ∀ n ∈ numbers (h.waiting.filter (·.claimer ≠ request.claimer)),
      n ∈ numbers h.waiting := fun n left => split.subset (mem_append_left _ left)
  rw [filter_ne_request turn.distinct member]
  constructor
  · exact turn.count
  · rw [inTurn_filter, inOrder, filter_cons_of_neg (by simp), filter_ne_eq_self notIn]
  · rw [claimers_filter_ne]
    exact turn.distinct.filter _
  · rfl
  · intro other known found
    by_cases equal : other = request.claimer
    · simp only [equal, update_self, Option.some.injEq] at found
      rw [← found, equal, History.view, own_withdrawn]
      simp [own]
    · simp only [update_of_ne equal] at found
      rw [turn.knows other known found, History.view, History.view, own_other _ equal, inactive]
      simp [own, Ne.symm equal]
  · intro other waits
    by_cases equal : other = request.claimer
    · simp [equal]
    · simp only [update_of_ne equal]
      apply turn.alive
      rcases mem_append.mp waits with waiting | active
      · rw [claimers_filter_ne] at waiting
        exact mem_append_left _ (mem_of_mem_filter waiting)
      · exact absurd (mem_singleton.mp active) equal
  · have same := turn.partition
    rw [inactive] at same
    refine List.Perm.trans ?_ same
    apply List.Perm.append_right
    simpa [numbers] using split
  · apply List.Nodup.append turn.once (nodup_singleton _)
    intro n called new
    rw [mem_singleton.mp new] at called
    exact (turn.calledOf _ called).2 (mem_map_of_mem member)
  · intro n called
    rcases mem_append.mp called with before | new
    · obtain ⟨asked, notWaiting⟩ := turn.calledOf n before
      exact ⟨asked, fun left => notWaiting (leftSubset n left)⟩
    · rw [mem_singleton.mp new]
      refine ⟨?_, notLeft⟩
      apply mem_range.mp
      apply turn.partition.mem_iff.mp
      simp only [mem_append]
      exact .inl (.inl (mem_map_of_mem member))
  · intro n active
    exact mem_append_right _ active
  · rfl
  · intros
    contradiction

theorem evaluate {inside : List Call} {more : Nat} (turn : InTurn s h)
    (due : s.scheduled = more + 1)
    (evaluates : { s with scheduled := more }.reEvaluateClaim inside = some t) :
    InTurn t (h.grant inside) := by
  have flag : s.reEvaluateClaimScheduled = true ∧ more = 0 := by
    have flag := turn.flag
    rw [due] at flag
    split at flag
    case isTrue on => exact ⟨on, Nat.succ.inj flag⟩
    case isFalse => cases flag
  have idle : (s.currentClaim = none → s.pendingClaims = []) →
      InTurn { s with scheduled := more, reEvaluateClaimScheduled := false } h := fun nothing =>
    { turn with
      flag := flag.2
      due := fun free pending => absurd (nothing free) pending }
  rw [ClaimableResource.reEvaluateClaim] at evaluates
  cases current : s.currentClaim with
  | some claimer =>
    have busy : ∃ request rest, h.active = request :: rest := by
      cases active : h.active with
      | nil =>
        have only := turn.current
        simp [active, current, claimers] at only
      | cons request rest => exact ⟨request, rest, rfl⟩
    obtain ⟨request, rest, active⟩ := busy
    simp only [current, Option.some.injEq] at evaluates
    rw [← evaluates, History.grant, active]
    simpa [current] using idle (by simp [current])
  | none =>
    have inactive : h.active = [] := by
      have only := turn.current
      rw [current] at only
      exact map_eq_nil_iff.mp only
    cases inOrder : inTurn h.waiting with
    | nil =>
      have empty : s.pendingClaims = [] := by rw [turn.pending, inOrder]; rfl
      simp only [current, empty, Option.some.injEq] at evaluates
      rw [← evaluates, History.grant, inactive, inOrder]
      simpa [current, empty] using idle fun _ => empty
    | cons request others =>
      have pending : s.pendingClaims = request.claimer :: claimers others := by
        rw [turn.pending, inOrder]
        rfl
      obtain ⟨k, here, function⟩ := turn.first inOrder
      simp only [current, pending, ClaimableResource.claimGranted, here, function] at evaluates
      rw [History.grant, inactive, inOrder]
      have next := turn.granted inOrder inactive
      rw [flag.2] at evaluates
      exact next.performAll evaluates

theorem step {step : Step} (turn : InTurn s h) (steps : s.step step = some t) :
    InTurn t (h.step step) := by
  cases step with
  | call call => exact turn.perform steps
  | execute inside =>
    rw [ClaimableResource.step] at steps
    cases due : s.scheduled with
    | zero => simp [due] at steps
    | succ more =>
      simp only [due] at steps
      exact turn.evaluate due steps

end InTurn

end Event
