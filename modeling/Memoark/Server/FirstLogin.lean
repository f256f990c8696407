import Memoark.Server.ResolveSSOUser

/-! A first sign-in with an external identity leaves one linkage and one user, whatever the
sign-ins that run beside it. -/
namespace Memoark.Server.SSO
open Memoark.System

section invariant

variable (provider externUID : String)

def State.Linked (s : State) (u : Nat) : Prop :=
  ∃ i ∈ s.identities, i.links provider externUID = true ∧ i.UserID = u

def Call.holds : Call → Option Nat
  | .createUserIdentity userID => some userID
  | .deleteUser userID => some userID
  | _ => none

structure State.Provisional (s : State) (u : Nat) : Prop where
  created : u ∈ s.created
  account : u ∉ s.accounts
  identity : ∀ i ∈ s.identities, i.UserID ≠ u

def Call.Sound (s : State) : Call → Prop
  | .lookup currentUser => ∀ u, currentUser = some u → u ∈ s.accounts
  | .getLinkedUser _ identity => s.Linked provider externUID identity.UserID
  | .createUserIdentity userID => s.Provisional userID
  | .deleteUser userID => s.Provisional userID
  | .getWinner userID => s.Linked provider externUID userID
  | .findForProvider currentUser => currentUser ∈ s.accounts
  | .bind currentUser => currentUser ∈ s.accounts
  | .lookupWinner currentUser => currentUser ∈ s.accounts
  | .getBindWinner _ identity => s.Linked provider externUID identity.UserID
  | .reloadForProvider currentUser => currentUser ∈ s.accounts
  | .returned (.ok userID) => s.Linked provider externUID userID
  | _ => True

structure Inv (s : State) : Prop where
  unique : (s.identities.filter (UserIdentity.links provider externUID)).length ≤ 1
  identities : ∀ i ∈ s.identities, i.UserID < s.nextUserID
  accounts : ∀ u ∈ s.accounts, u < s.nextUserID
  created : ∀ u ∈ s.created, u < s.nextUserID
  calls : ∀ c, (s.calls c).Sound provider externUID s
  held : ∀ c c' u, (s.calls c).holds = some u → (s.calls c').holds = some u → c = c'
  /-- A user that a call has created is linked, or the call is still at work on it. -/
  cleaned : ∀ u ∈ s.created, u ∈ s.users →
    s.Linked provider externUID u ∨ ∃ c, (s.calls c).holds = some u

/-- One linkage at most; who succeeds is the linked user; and when all calls have returned, no
other user that they created is left. -/
structure FirstLogin (s : State) : Prop where
  atMostOne : (s.identities.filter (UserIdentity.links provider externUID)).length ≤ 1
  linked : ∀ c u, s.calls c = .returned (.ok u) → s.Linked provider externUID u
  cleaned : (∀ c, s.calls c = .idle ∨ ∃ result, s.calls c = .returned result) →
    ∀ u ∈ s.created, u ∈ s.users → s.Linked provider externUID u

end invariant

section steps

variable {provider externUID : String} {s s' : State} {c : Nat}

theorem Inv.of_init (h : Init provider externUID s) : Inv provider externUID s where
  unique := by
    have hnone : s.identities.filter (UserIdentity.links provider externUID) = [] := by
      rw [List.filter_eq_nil_iff]
      intro i hi
      rw [h.unlinked i hi]
      exact Bool.false_ne_true
    rw [hnone]
    exact Nat.zero_le 1
  identities := h.identities
  accounts := by
    rw [h.accounts]
    exact h.users
  created := by
    rw [h.created]
    exact nofun
  calls := by
    intro c
    rw [h.calls c]
    trivial
  held := by
    intro c c' u hc
    rw [h.calls c] at hc
    cases hc
  cleaned := by
    rw [h.created]
    exact nofun

theorem holds_update {calls : Nat → Call} {call : Call} {j u : Nat}
    (h : (update calls c call j).holds = some u) :
    (j = c ∧ call.holds = some u) ∨ (j ≠ c ∧ (calls j).holds = some u) := by
  by_cases hj : j = c
  · subst hj
    rw [update_self] at h
    exact .inl ⟨rfl, h⟩
  · rw [update_of_ne hj] at h
    exact .inr ⟨hj, h⟩

theorem Inv.provisional (h : Inv provider externUID s) {u : Nat}
    (hu : (s.calls c).holds = some u) : s.Provisional u := by
  have hc := h.calls c
  revert hu hc
  cases s.calls c with
  | createUserIdentity userID =>
    rintro ⟨⟩ hc
    exact hc
  | deleteUser userID =>
    rintro ⟨⟩ hc
    exact hc
  | _ => nofun

theorem State.Linked.mono {u : Nat} (h : s.Linked provider externUID u)
    (hids : ∀ i ∈ s.identities, i ∈ s'.identities) : s'.Linked provider externUID u := by
  obtain ⟨i, hi, hlink⟩ := h
  exact ⟨i, hids i hi, hlink⟩

theorem Call.Sound.mono {call : Call} (h : call.Sound provider externUID s)
    (hids : ∀ i ∈ s.identities, i ∈ s'.identities) (haccounts : ∀ u ∈ s.accounts, u ∈ s'.accounts)
    (hheld : ∀ u, call.holds = some u → s'.Provisional u) : call.Sound provider externUID s' := by
  cases call with
  | lookup currentUser => exact fun u hu => haccounts u (h u hu)
  | getLinkedUser currentUser identity => exact State.Linked.mono h hids
  | createUserIdentity userID => exact hheld userID rfl
  | deleteUser userID => exact hheld userID rfl
  | getWinner userID => exact State.Linked.mono h hids
  | findForProvider currentUser => exact haccounts currentUser h
  | bind currentUser => exact haccounts currentUser h
  | lookupWinner currentUser => exact haccounts currentUser h
  | getBindWinner currentUser identity => exact State.Linked.mono h hids
  | reloadForProvider currentUser => exact haccounts currentUser h
  | returned result =>
    cases result with
    | ok userID => exact State.Linked.mono h hids
    | error err => trivial
  | _ => trivial

theorem Inv.held_update (h : Inv provider externUID s) {call : Call}
    (hholds : ∀ u, call.holds = some u → (s.calls c).holds = some u) (j j' u : Nat)
    (hj : (update s.calls c call j).holds = some u)
    (hj' : (update s.calls c call j').holds = some u) : j = j' := by
  have hold : ∀ j, (update s.calls c call j).holds = some u → (s.calls j).holds = some u := by
    intro j hj
    rcases holds_update hj with ⟨rfl, hu⟩ | ⟨_, hu⟩
    · exact hholds u hu
    · exact hu
  exact h.held j j' u (hold j hj) (hold j' hj')

theorem Inv.move (h : Inv provider externUID s) {call : Call}
    (hholds : call.holds = (s.calls c).holds) (hc : call.Sound provider externUID s) :
    Inv provider externUID (s.move c call) where
  unique := h.unique
  identities := h.identities
  accounts := h.accounts
  created := h.created
  calls := by
    have hprovisional : ∀ u, s.Provisional u → (s.move c call).Provisional u :=
      fun u hu => ⟨hu.created, hu.account, hu.identity⟩
    refine forall_update ?_ fun j => ?_
    · exact hc.mono (fun _ hi => hi) (fun _ hu => hu)
        fun u hu => hprovisional u (h.provisional (hholds ▸ hu))
    · exact (h.calls j).mono (fun _ hi => hi) (fun _ hu => hu)
        fun u hu => hprovisional u (h.provisional hu)
  held := h.held_update fun u hu => hholds ▸ hu
  cleaned := by
    intro u hcreated hin
    refine (h.cleaned u hcreated hin).imp_right ?_
    rintro ⟨j, hj⟩
    refine ⟨j, ?_⟩
    change (update s.calls c call j).holds = some u
    by_cases hjc : j = c
    · subst hjc
      rw [update_self, hholds]
      exact hj
    · rw [update_of_ne hjc]
      exact hj

theorem Inv.fail (h : Inv provider externUID s) (hholds : (s.calls c).holds = none) (err : Status) :
    Inv provider externUID (s.fail c err) := h.move hholds.symm trivial

theorem Inv.returns (h : Inv provider externUID s) (new : List UserIdentity) (n : Nat) {u : Nat}
    (hlinked : ∃ i ∈ s.identities ++ new, i.links provider externUID = true ∧ i.UserID = u)
    (hbound : u < s.nextUserID) (hnew : ∀ i ∈ new, i.UserID = u)
    (hunique : ((s.identities ++ new).filter (UserIdentity.links provider externUID)).length ≤ 1)
    (hown : ∀ w, (s.calls c).holds = some w → w = u)
    (hothers : ∀ j, j ≠ c → ∀ w, (s.calls j).holds = some w → w ≠ u) :
    Inv provider externUID { s.succeed c u with
      identities := s.identities ++ new
      nextIdentityID := n } where
  unique := hunique
  identities := by
    intro i hi
    rcases List.mem_append.mp hi with hi | hi
    · exact h.identities i hi
    · rw [hnew i hi]
      exact hbound
  accounts := by
    intro w hw
    rcases List.mem_cons.mp hw with rfl | hw
    · exact hbound
    · exact h.accounts w hw
  created := h.created
  calls := by
    intro j
    change (update s.calls c (.returned (.ok u)) j).Sound provider externUID _
    by_cases hj : j = c
    · subst hj
      rw [update_self]
      exact hlinked
    · rw [update_of_ne hj]
      refine (h.calls j).mono (fun i hi => List.mem_append_left _ hi)
        (fun w hw => List.mem_cons_of_mem _ hw) fun w hw => ?_
      obtain ⟨hcreated, haccount, hidentity⟩ := h.provisional hw
      have hne := hothers j hj w hw
      refine ⟨hcreated, ?_, fun i hi => ?_⟩
      · intro hin
        rcases List.mem_cons.mp hin with heq | hin
        · exact hne heq
        · exact haccount hin
      · rcases List.mem_append.mp hi with hi | hi
        · exact hidentity i hi
        · rw [hnew i hi]
          exact hne.symm
  held := h.held_update nofun
  cleaned := by
    intro w hcreated hin
    rcases h.cleaned w hcreated hin with hold | ⟨j, hj⟩
    · exact .inl (hold.mono fun i hi => List.mem_append_left _ hi)
    · by_cases hjc : j = c
      · subst hjc
        rw [hown w hj]
        exact .inl hlinked
      · refine .inr ⟨j, ?_⟩
        change (update s.calls c _ j).holds = some w
        rw [update_of_ne hjc]
        exact hj

theorem Inv.succeed (h : Inv provider externUID s) {u : Nat} (hholds : (s.calls c).holds = none)
    (hlinked : s.Linked provider externUID u) : Inv provider externUID (s.succeed c u) := by
  obtain ⟨i, hi, hlink, rfl⟩ := hlinked
  have hothers : ∀ j, j ≠ c → ∀ w, (s.calls j).holds = some w → w ≠ i.UserID := by
    intro j _ w hw heq
    exact (h.provisional hw).identity i hi heq.symm
  have hreturns := h.returns (c := c) [] s.nextIdentityID (u := i.UserID)
    ⟨i, by rw [List.append_nil]; exact hi, hlink, rfl⟩ (h.identities i hi) nofun
    (by rw [List.append_nil]; exact h.unique) (by rw [hholds]; exact nofun) hothers
  rw [List.append_nil] at hreturns
  exact hreturns

theorem not_conflicts {u : Nat} (h : ¬s.conflicts provider externUID u = true) :
    s.identities.filter (UserIdentity.links provider externUID) = [] := by
  rw [List.filter_eq_nil_iff]
  intro i hi hlink
  apply h
  rw [State.conflicts, List.any_eq_true]
  exact ⟨i, hi, by rw [hlink, Bool.true_or]⟩

theorem Inv.link (h : Inv provider externUID s) {u : Nat} {refused : Call}
    (hbound : u < s.nextUserID) (hown : ∀ w, (s.calls c).holds = some w → w = u)
    (hothers : ∀ j, j ≠ c → ∀ w, (s.calls j).holds = some w → w ≠ u)
    (hholds : refused.holds = (s.calls c).holds) (hrefused : refused.Sound provider externUID s) :
    Inv provider externUID (s.link provider externUID c u refused) := by
  unfold State.link
  split
  · exact h.move hholds hrefused
  · rename_i hconflict
    have hlink : (UserIdentity.mk s.nextIdentityID u provider externUID).links provider externUID =
        true := by simp [UserIdentity.links]
    refine h.returns _ _ ⟨_, List.mem_append_right _ List.mem_cons_self, hlink, rfl⟩ hbound ?_ ?_
      hown hothers
    · intro i hi
      rw [List.mem_singleton.mp hi]
    · rw [List.filter_append, not_conflicts hconflict, List.nil_append]
      exact List.length_filter_le _ _

theorem Inv.createUserIdentity (h : Inv provider externUID s) {u : Nat}
    (hcall : s.calls c = .createUserIdentity u) :
    Inv provider externUID (s.link provider externUID c u (.deleteUser u)) := by
  have hholds : (s.calls c).holds = some u := by rw [hcall]; rfl
  have hprovisional := h.provisional hholds
  refine h.link (h.created u hprovisional.created) ?_ ?_ ?_ hprovisional
  · intro w hw
    rw [hholds] at hw
    exact (Option.some.inj hw).symm
  · rintro j hj w hw rfl
    exact hj (h.held j c w hw hholds)
  · rw [hholds]
    rfl

theorem Inv.bind (h : Inv provider externUID s) {u : Nat} (hcall : s.calls c = .bind u) :
    Inv provider externUID (s.link provider externUID c u (.lookupWinner u)) := by
  have haccount : u ∈ s.accounts := by
    have hc := h.calls c
    rw [hcall] at hc
    exact hc
  refine h.link (h.accounts u haccount) ?_ ?_ ?_ haccount
  · rw [hcall]
    exact nofun
  · rintro j _ w hw rfl
    exact (h.provisional hw).account haccount
  · rw [hcall]
    rfl

theorem Inv.createUser (h : Inv provider externUID s) (hcall : s.calls c = .createUser) :
    Inv provider externUID { s with
      users := s.nextUserID :: s.users
      nextUserID := s.nextUserID + 1
      calls := update s.calls c (.createUserIdentity s.nextUserID)
      created := s.nextUserID :: s.created } where
  unique := h.unique
  identities := fun i hi => Nat.lt_succ_of_lt (h.identities i hi)
  accounts := fun u hu => Nat.lt_succ_of_lt (h.accounts u hu)
  created := by
    intro u hu
    rcases List.mem_cons.mp hu with rfl | hu
    · exact Nat.lt_succ_self _
    · exact Nat.lt_succ_of_lt (h.created u hu)
  calls := by
    refine forall_update ?_ fun j => ?_
    · refine ⟨List.mem_cons_self, fun hin => ?_, fun i hi heq => ?_⟩
      · exact absurd (h.accounts _ hin) (Nat.lt_irrefl _)
      · have hlt := h.identities i hi
        omega
    · refine (h.calls j).mono (fun _ hi => hi) (fun _ hu => hu) fun u hu => ?_
      obtain ⟨hcreated, haccount, hidentity⟩ := h.provisional hu
      exact ⟨List.mem_cons_of_mem _ hcreated, haccount, hidentity⟩
  held := by
    intro j j' u hj hj'
    have hnew : ∀ j, (s.calls j).holds = some u → u ≠ s.nextUserID := by
      intro j hj
      have hlt := h.created u (h.provisional hj).created
      omega
    rcases holds_update hj with ⟨rfl, hu⟩ | ⟨_, hu⟩
    · rcases holds_update hj' with ⟨rfl, _⟩ | ⟨_, hu'⟩
      · rfl
      · exact absurd (Option.some.inj hu).symm (hnew j' hu')
    · rcases holds_update hj' with ⟨rfl, hu'⟩ | ⟨_, hu'⟩
      · exact absurd (Option.some.inj hu').symm (hnew j hu)
      · exact h.held j j' u hu hu'
  cleaned := by
    intro u hcreated hin
    by_cases hu : u = s.nextUserID
    · subst hu
      refine .inr ⟨c, ?_⟩
      change (update s.calls c _ c).holds = _
      rw [update_self]
      rfl
    · refine (h.cleaned u (List.mem_of_ne_of_mem hu hcreated) (List.mem_of_ne_of_mem hu hin)).imp
        (fun hlinked => hlinked.mono fun _ hi => hi) ?_
      rintro ⟨j, hj⟩
      refine ⟨j, ?_⟩
      change (update s.calls c _ j).holds = some u
      rw [update_of_ne]
      · exact hj
      · rintro rfl
        rw [hcall] at hj
        cases hj

theorem Inv.deleteUser (h : Inv provider externUID s) {u : Nat}
    (hcall : s.calls c = .deleteUser u) :
    Inv provider externUID { s with
      users := s.users.filter (· ≠ u)
      identities := s.identities.filter (·.UserID ≠ u)
      calls := update s.calls c .reloadWinner } := by
  have hholds : (s.calls c).holds = some u := by rw [hcall]; rfl
  have hids : s.identities.filter (·.UserID ≠ u) = s.identities := by
    rw [List.filter_eq_self]
    intro i hi
    simpa using (h.provisional hholds).identity i hi
  rw [hids]
  refine ⟨h.unique, h.identities, h.accounts, h.created, ?_, h.held_update nofun, ?_⟩
  · refine forall_update trivial fun j => ?_
    refine (h.calls j).mono (fun _ hi => hi) (fun _ hu => hu) fun w hw => ?_
    obtain ⟨hcreated, haccount, hidentity⟩ := h.provisional hw
    exact ⟨hcreated, haccount, hidentity⟩
  · intro w hcreated hin
    obtain ⟨hin, hne⟩ := List.mem_filter.mp hin
    refine (h.cleaned w hcreated hin).imp (fun hlinked => hlinked.mono fun _ hi => hi) ?_
    rintro ⟨j, hj⟩
    refine ⟨j, ?_⟩
    change (update s.calls c _ j).holds = some w
    rw [update_of_ne]
    · exact hj
    · rintro rfl
      rw [hholds] at hj
      simp [Option.some.inj hj] at hne

theorem linkage_linked {i : UserIdentity} (h : s.linkage provider externUID = some i) :
    s.Linked provider externUID i.UserID :=
  ⟨i, List.mem_of_find?_eq_some h, List.find?_some h, rfl⟩

theorem ofProvider_linked {u : Nat} {i : UserIdentity} (h : s.ofProvider provider u = some i)
    (hidp : i.ExternUID = externUID) : s.Linked provider externUID u := by
  have hi := List.find?_some h
  simp only [Bool.and_eq_true, decide_eq_true_eq] at hi
  refine ⟨i, List.mem_of_find?_eq_some h, ?_, hi.1⟩
  simp [UserIdentity.links, hi.2, hidp]

theorem Inv.compare (h : Inv provider externUID s) {u : Nat} {i : UserIdentity}
    (hholds : (s.calls c).holds = none) (hi : s.ofProvider provider u = some i) :
    Inv provider externUID (s.compare externUID c u i) := by
  unfold State.compare
  split
  · rename_i hidp
    exact h.succeed hholds (ofProvider_linked hi hidp)
  · exact h.fail hholds _

theorem Inv.callStep (h : Inv provider externUID s) {disallow : Bool}
    (hs : callStep provider externUID s c disallow (s.calls c) = some s') :
    Inv provider externUID s' := by
  have hc := h.calls c
  cases hcall : s.calls c with
  | lookup currentUser =>
    rw [hcall] at hc hs
    have hholds : (s.calls c).holds = none := by rw [hcall]; rfl
    simp only [SSO.callStep] at hs
    split at hs <;> cases hs
    · rename_i identity hidentity
      exact h.move hholds.symm (linkage_linked hidentity)
    · exact h.move hholds.symm (hc _ rfl)
    · exact h.move hholds.symm trivial
  | getLinkedUser currentUser identity =>
    rw [hcall] at hc hs
    have hholds : (s.calls c).holds = none := by rw [hcall]; rfl
    simp only [SSO.callStep] at hs
    split at hs
    · split at hs <;> cases hs
      · exact h.fail hholds _
      · exact h.succeed hholds hc
    · cases hs
      exact h.fail hholds _
  | getInstanceGeneralSetting =>
    rw [hcall] at hs
    have hholds : (s.calls c).holds = none := by rw [hcall]; rfl
    simp only [SSO.callStep] at hs
    split at hs <;> cases hs
    · exact h.fail hholds _
    · exact h.move hholds.symm trivial
  | createUser =>
    rw [hcall] at hs
    cases hs
    exact h.createUser hcall
  | createUserIdentity userID =>
    rw [hcall] at hs
    cases hs
    exact h.createUserIdentity hcall
  | deleteUser userID =>
    rw [hcall] at hs
    cases hs
    exact h.deleteUser hcall
  | reloadWinner =>
    rw [hcall] at hs
    have hholds : (s.calls c).holds = none := by rw [hcall]; rfl
    simp only [SSO.callStep] at hs
    split at hs <;> cases hs
    · rename_i winner hwinner
      exact h.move hholds.symm (linkage_linked hwinner)
    · exact h.fail hholds _
  | getWinner userID =>
    rw [hcall] at hc hs
    have hholds : (s.calls c).holds = none := by rw [hcall]; rfl
    simp only [SSO.callStep] at hs
    split at hs <;> cases hs
    · exact h.succeed hholds hc
    · exact h.fail hholds _
  | findForProvider currentUser =>
    rw [hcall] at hc hs
    have hholds : (s.calls c).holds = none := by rw [hcall]; rfl
    simp only [SSO.callStep] at hs
    split at hs <;> cases hs
    · rename_i existing hexisting
      exact h.compare hholds hexisting
    · exact h.move hholds.symm hc
  | bind currentUser =>
    rw [hcall] at hs
    cases hs
    exact h.bind hcall
  | lookupWinner currentUser =>
    rw [hcall] at hc hs
    have hholds : (s.calls c).holds = none := by rw [hcall]; rfl
    simp only [SSO.callStep] at hs
    split at hs <;> cases hs
    · rename_i winner hwinner
      exact h.move hholds.symm (linkage_linked hwinner)
    · exact h.move hholds.symm hc
  | getBindWinner currentUser identity =>
    rw [hcall] at hc hs
    have hholds : (s.calls c).holds = none := by rw [hcall]; rfl
    simp only [SSO.callStep] at hs
    split at hs
    · split at hs <;> cases hs
      · exact h.fail hholds _
      · rename_i heq
        exact h.succeed hholds (Decidable.not_not.mp heq ▸ hc)
    · cases hs
      exact h.fail hholds _
  | reloadForProvider currentUser =>
    rw [hcall] at hs
    have hholds : (s.calls c).holds = none := by rw [hcall]; rfl
    simp only [SSO.callStep] at hs
    split at hs <;> cases hs
    · rename_i existing hexisting
      exact h.compare hholds hexisting
    · exact h.fail hholds _
  | _ =>
    rw [hcall] at hs
    cases hs

theorem Inv.step {l : Label} (h : Inv provider externUID s)
    (hs : step provider externUID s l = some s') : Inv provider externUID s' := by
  cases l with
  | start c currentUser =>
    simp only [SSO.step] at hs
    split at hs
    · rename_i hcall
      obtain ⟨haccount, ⟨⟩⟩ := Option.ite_none_right_eq_some.mp hs
      refine h.move (by rw [hcall]; rfl) fun u hu => ?_
      rw [hu] at haccount
      simpa using haccount
    · cases hs
  | step c disallow => exact h.callStep hs
  | noRandom c =>
    simp only [SSO.step] at hs
    split at hs <;> cases hs
    rename_i hcall
    exact h.fail (by rw [hcall]; rfl) _

end steps

section results

variable {provider externUID : String}

/-- Along every run. -/
theorem firstLogin_unique {s : State}
    (h : (system provider externUID).Reaches (fun _ _ => True) s) :
    FirstLogin provider externUID s := by
  have hinv : Inv provider externUID s :=
    h.invariant (fun _ => Inv.of_init) fun _ _ _ hi _ hs => hi.step hs
  refine ⟨hinv.unique, fun c u hcall => ?_, fun hdone u hcreated hin => ?_⟩
  · have hc := hinv.calls c
    rw [hcall] at hc
    exact hc
  · rcases hinv.cleaned u hcreated hin with hlinked | ⟨c, hc⟩
    · exact hlinked
    · rcases hdone c with hcall | ⟨result, hcall⟩
      · rw [hcall] at hc
        cases hc
      · rw [hcall] at hc
        cases hc

def fresh : State := ⟨[1], 2, [], 1, fun _ => .idle, [], [1]⟩

theorem init_fresh : Init "github" "octocat" fresh :=
  ⟨nofun, by decide, nofun, fun _ => rfl, rfl, rfl⟩

def twoSignIns : List Label :=
  [.start 0 none, .start 1 none, .step 0 false, .step 1 false, .step 0 false, .step 1 false,
    .step 0 false, .step 1 false, .step 0 false, .step 1 false, .step 1 false, .step 1 false,
    .step 1 false]

theorem firstLogin_twoSignIns : ∃ s, (system "github" "octocat").run fresh twoSignIns = some s ∧
    s.calls 0 = .returned (.ok 2) ∧ s.calls 1 = .returned (.ok 2) ∧ s.created = [3, 2] ∧
    s.users = [2, 1] ∧ FirstLogin "github" "octocat" s := by
  have hrun : ∃ s, (system "github" "octocat").run fresh twoSignIns = some s ∧
      s.calls 0 = .returned (.ok 2) ∧ s.calls 1 = .returned (.ok 2) ∧ s.created = [3, 2] ∧
      s.users = [2, 1] := ⟨_, rfl, rfl, rfl, rfl, rfl⟩
  obtain ⟨s, hs, hzero, hone, hcreated, husers⟩ := hrun
  exact ⟨s, hs, hzero, hone, hcreated, husers, firstLogin_unique
    (.run (.init init_fresh) (LabelledSystem.meets_true _ _) hs)⟩

end results

end Memoark.Server.SSO
