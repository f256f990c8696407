import Memoark.Server.UpdateMemo
import Memoark.System.Runs

/-! `UpdateMemo` calls and `RunOnce` passes on one memo, split into their reads and writes of
its row. -/
namespace Memoark.Server.PayloadRuns
open Store Memoark.System

abbrev Location := Option MemoPayload.Location

inductive Call where
  | idle
  /-- The snapshot is read; the paths are those the mask loop has still to handle. -/
  | updating (request : UpdateMemoRequest) (snapshot : Memo) (draft : Draft) (paths : List Path)
  /-- The row is written, with the location write of this update if it named location. -/
  | updated (written : Option (Version Location))
  /-- `RunOnce` between two batches, or at another memo of a batch. -/
  | passing
  /-- The memo stands in the batch of `RunOnce` as it was listed. -/
  | rebuilding (snapshot : Memo)

inductive Label where
  | startUpdate (call : Nat) (request : UpdateMemoRequest) (user : Option (Option User))
  | applyPath (call : Nat) (answers : Answers)
  | write (call : Nat)
  | finish (call : Nat)
  /-- The database fails a write. -/
  | fail (call : Nat)
  | startPass (call : Nat)
  /-- A batch that holds the memo is listed. -/
  | list (call : Nat)
  | rebuild (call : Nat)
  | endPass (call : Nat)

structure State where
  row : Memo
  calls : Nat → Call
  /-- The number of writes of updates that named location. -/
  locationWrites : Nat
  /-- What the last finished update that named location wrote; the original location at first. -/
  located : Version Location

def State.move (s : State) (c : Nat) (call : Call) : State :=
  { s with calls := update s.calls c call }

def State.write (s : State) (c : Nat) (request : UpdateMemoRequest) (d : Draft) : State :=
  if .location ∈ request.paths then
    { s with
      row := s.row.updated d.update
      locationWrites := s.locationWrites + 1
      calls := update s.calls c (.updated (some ⟨s.locationWrites + 1, request.location⟩)) }
  else
    { s with row := s.row.updated d.update, calls := update s.calls c (.updated none) }

def payloadUpdate (payload : MemoPayload) : UpdateMemo :=
  ⟨none, none, none, none, none, none, some payload⟩

def step (extractAll : ExtractAll) (s : State) : Label → Option State
  | .startUpdate c request user =>
    match s.calls c with
    | .idle =>
      match checkUpdateMemo request s.row user with
      | .ok _ => some (s.move c (.updating request s.row (.start s.row) request.paths))
      | .error _ => some s
    | _ => none
  | .applyPath c answers =>
    match s.calls c with
    | .updating request snapshot d (path :: paths) =>
      match applyPath extractAll request answers d path with
      | .ok d' => some (s.move c (.updating request snapshot d' paths))
      | .error _ => some (s.move c .idle)
    | _ => none
  | .write c =>
    match s.calls c with
    | .updating request _ d [] => some (s.write c request d)
    | _ => none
  | .finish c =>
    match s.calls c with
    | .updated none => some (s.move c .idle)
    | .updated (some located) => some { s.move c .idle with located := located }
    | _ => none
  | .fail c =>
    match s.calls c with
    | .updating _ _ _ [] => some (s.move c .idle)
    | .rebuilding _ => some (s.move c .passing)
    | _ => none
  | .startPass c =>
    match s.calls c with
    | .idle => some (s.move c .passing)
    | _ => none
  | .list c =>
    match s.calls c with
    | .passing => some (s.move c (.rebuilding s.row))
    | _ => none
  | .rebuild c =>
    match s.calls c with
    | .rebuilding snapshot =>
      match rebuildMemoPayload extractAll snapshot with
      | some memo =>
        some { s.move c .passing with row := s.row.updated (payloadUpdate memo.payload) }
      | none => some (s.move c .passing)
    | _ => none
  | .endPass c =>
    match s.calls c with
    | .passing => some (s.move c .idle)
    | _ => none

/-- After `CreateMemo`, before the first call. -/
structure Init (extractAll : ExtractAll) (s : State) : Prop where
  row : PayloadMatches extractAll s.row
  calls : ∀ c, s.calls c = .idle
  locationWrites : s.locationWrites = 0
  located : s.located = ⟨0, s.row.payload.location⟩

def system (extractAll : ExtractAll) : LabelledSystem State Label :=
  ⟨Init extractAll, step extractAll⟩

/-- Once every call has finished, the payload is that of the content and of the last finished
update that named location. -/
def Settled (extractAll : ExtractAll) (s : State) : Prop :=
  (∀ c, s.calls c = .idle) →
    PayloadMatches extractAll s.row ∧ s.row.payload.location = s.located.value

/-- The row still has the location of the snapshot, and a content with the same metadata, as far
as the write takes them from the snapshot. -/
structure Current (extractAll : ExtractAll) (row snapshot : Memo) (paths : List Path) :
    Prop where
  content : .content ∉ paths → extractAll row.content = extractAll snapshot.content
  location : .location ∉ paths → row.payload.location = snapshot.payload.location

/-- A payload is written from a current snapshot only, and updates that name location finish in
the order of their writes. -/
def Undisturbed (extractAll : ExtractAll) (s : State) : Label → Prop
  | .write c =>
    match s.calls c with
    | .updating request snapshot _ [] =>
      .content ∈ request.paths ∨ .location ∈ request.paths →
        Current extractAll s.row snapshot request.paths
    | _ => True
  | .rebuild c =>
    match s.calls c with
    | .rebuilding snapshot => Current extractAll s.row snapshot []
    | _ => True
  | .finish c =>
    match s.calls c with
    | .updated (some located) => s.located.number ≤ located.number
    | _ => True
  | _ => True

/-- What the rounds of the mask loop keep: the draft is a snapshot with the effects of the paths
handled so far. -/
structure Follows (extractAll : ExtractAll) (request : UpdateMemoRequest) (snapshot : Memo)
    (d : Draft) (paths : List Path) : Prop where
  subset : ∀ path ∈ paths, path ∈ request.paths
  payload : PayloadMatches extractAll d.memo
  contentKept : d.contentSet = false → d.memo.content = snapshot.content
  contentNamed : .content ∈ request.paths → .content ∈ paths ∨ d.contentSet = true
  contentWritten : d.contentSet = true → d.payloadSet = true
  payloadWritten : d.payloadSet = true → .content ∈ request.paths ∨ .location ∈ request.paths
  locationKept : .location ∉ request.paths → d.memo.payload.location = snapshot.payload.location
  locationNamed : .location ∈ request.paths →
    .location ∈ paths ∨ d.payloadSet = true ∧ d.memo.payload.location = request.location

theorem Follows.start {extractAll : ExtractAll} {request : UpdateMemoRequest} {row : Memo}
    (h : PayloadMatches extractAll row) :
    Follows extractAll request row (.start row) request.paths where
  subset := fun _ hp => hp
  payload := h
  contentKept := fun _ => rfl
  contentNamed := Or.inl
  contentWritten := nofun
  payloadWritten := nofun
  locationKept := fun _ => rfl
  locationNamed := Or.inl

theorem Follows.round {extractAll : ExtractAll} {request : UpdateMemoRequest} {snapshot : Memo}
    {d d' : Draft} {path : Path} {paths : List Path}
    (h : Follows extractAll request snapshot d (path :: paths))
    (hr : Round extractAll request d d' path) :
    Follows extractAll request snapshot d' paths := by
  have hsub : ∀ p ∈ paths, p ∈ request.paths := fun p hp => h.subset p (.tail _ hp)
  have hpath : path ∈ request.paths := h.subset path (.head _)
  cases hr with
  | content hc hp hm =>
    have hloc : d'.memo.payload.location = d.memo.payload.location := by
      rw [rebuildMemoPayload_location hm]
    refine ⟨hsub, rebuildMemoPayload_matches hm, ?_, fun _ => .inr hc, fun _ => hp,
      fun _ => .inl hpath, fun hn => ?_, fun hl => ?_⟩
    · intro hf
      rw [hc] at hf
      cases hf
    · rw [hloc]
      exact h.locationKept hn
    · rw [hloc]
      rcases h.locationNamed hl with hin | ⟨_, heq⟩
      · left
        simpa using hin
      · exact .inr ⟨hp, heq⟩
  | location hc hp hm =>
    refine ⟨hsub, ?_, fun hf => ?_, fun hin => ?_, fun _ => hp, fun _ => .inr hpath,
      fun hn => absurd hpath hn, fun _ => .inr ⟨hp, ?_⟩⟩
    · rw [hm]
      exact h.payload.congr rfl rfl rfl
    · rw [hm]
      rw [hc] at hf
      exact h.contentKept hf
    · rw [hc]
      simpa using h.contentNamed hin
    · rw [hm]
  | other hcp hlp hc hp hm =>
    refine ⟨hsub, ?_, ?_, fun hin => ?_, ?_, ?_, ?_, fun hl => ?_⟩
    · rw [hm]
      exact h.payload
    · rw [hc, hm]
      exact h.contentKept
    · rw [hc]
      have hne := hcp.symm
      simpa [hne] using h.contentNamed hin
    · rw [hc, hp]
      exact h.contentWritten
    · rw [hp]
      exact h.payloadWritten
    · rw [hm]
      exact h.locationKept
    · rw [hp, hm]
      rcases h.locationNamed hl with hin | heq
      · left
        rcases List.mem_cons.mp hin with heq | hin
        · exact absurd heq.symm hlp
        · exact hin
      · exact .inr heq

def Call.Sound (extractAll : ExtractAll) (location : Location) (writes : Nat) : Call → Prop
  | .updating request snapshot d paths => Follows extractAll request snapshot d paths
  | .updated (some written) =>
    written.number ≤ writes ∧ (written.number = writes → written.value = location)
  | .rebuilding snapshot => PayloadMatches extractAll snapshot
  | _ => True

def Call.HoldsLast (writes : Nat) : Call → Prop
  | .updated (some written) => written.number = writes
  | _ => False

structure Inv (extractAll : ExtractAll) (s : State) : Prop where
  row : PayloadMatches extractAll s.row
  calls : ∀ c, (s.calls c).Sound extractAll s.row.payload.location s.locationWrites
  located : s.located.number ≤ s.locationWrites
  current : s.located.number = s.locationWrites → s.located.value = s.row.payload.location
  last : s.located.number = s.locationWrites ∨ ∃ c, (s.calls c).HoldsLast s.locationWrites

theorem Inv.of_init {extractAll : ExtractAll} {s : State} (h : Init extractAll s) :
    Inv extractAll s := by
  obtain ⟨hrow, hcalls, hwrites, hlocated⟩ := h
  refine ⟨hrow, fun c => ?_, ?_, fun _ => ?_, .inl ?_⟩
  · rw [hcalls c]
    trivial
  · simp [hlocated, hwrites]
  · rw [hlocated]
  · rw [hlocated, hwrites]

theorem Inv.settled {extractAll : ExtractAll} {s : State} (h : Inv extractAll s) :
    Settled extractAll s := by
  intro hidle
  refine ⟨h.row, (h.current ?_).symm⟩
  rcases h.last with heq | ⟨c, hc⟩
  · exact heq
  · rw [hidle c] at hc
    exact hc.elim

theorem Inv.rewrite {extractAll : ExtractAll} {s : State} (h : Inv extractAll s) {c : Nat}
    {old call : Call} {row : Memo} (hrow : PayloadMatches extractAll row)
    (hloc : row.payload.location = s.row.payload.location) (hcall : s.calls c = old)
    (hold : ¬old.HoldsLast s.locationWrites)
    (hnew : call.Sound extractAll s.row.payload.location s.locationWrites) :
    Inv extractAll { s with row := row, calls := update s.calls c call } := by
  refine ⟨hrow, ?_, h.located, ?_, ?_⟩
  · change ∀ j, (update s.calls c call j).Sound extractAll row.payload.location s.locationWrites
    rw [hloc]
    exact forall_update hnew h.calls
  · intro heq
    rw [hloc]
    exact h.current heq
  · rcases h.last with heq | ⟨j, hj⟩
    · exact .inl heq
    · have hne : j ≠ c := by
        rintro rfl
        rw [hcall] at hj
        exact hold hj
      right
      refine ⟨j, ?_⟩
      simp only [update_of_ne hne]
      exact hj

theorem Inv.move {extractAll : ExtractAll} {s : State} (h : Inv extractAll s) {c : Nat}
    {old call : Call} (hcall : s.calls c = old) (hold : ¬old.HoldsLast s.locationWrites)
    (hnew : call.Sound extractAll s.row.payload.location s.locationWrites) :
    Inv extractAll (s.move c call) :=
  h.rewrite h.row rfl hcall hold hnew

theorem Follows.updated {extractAll : ExtractAll} {request : UpdateMemoRequest}
    {row snapshot : Memo} {d : Draft} (h : Follows extractAll request snapshot d [])
    (hrow : PayloadMatches extractAll row)
    (hcur : .content ∈ request.paths ∨ .location ∈ request.paths →
      Current extractAll row snapshot request.paths) :
    PayloadMatches extractAll (row.updated d.update) ∧
      (row.updated d.update).payload.location =
        if .location ∈ request.paths then request.location else row.payload.location := by
  cases hp : d.payloadSet with
  | false =>
    have hc : d.contentSet = false := by
      cases hc : d.contentSet with
      | false => rfl
      | true =>
        rw [h.contentWritten hc] at hp
        cases hp
    have hl : .location ∉ request.paths := by
      intro hl
      rcases h.locationNamed hl with hin | ⟨hset, _⟩
      · cases hin
      · rw [hp] at hset
        cases hset
    rw [if_neg hl]
    refine ⟨hrow.congr ?_ ?_ ?_, ?_⟩ <;> simp [Draft.update, hp, hc]
  | true =>
    have hcur := hcur (h.payloadWritten hp)
    have hpayload : (row.updated d.update).payload = d.memo.payload := by simp [Draft.update, hp]
    constructor
    · cases hc : d.contentSet with
      | true => refine h.payload.congr ?_ ?_ ?_ <;> simp [Draft.update, hp, hc]
      | false =>
        have hn : .content ∉ request.paths := by
          intro hin
          rcases h.contentNamed hin with hin | hset
          · cases hin
          · rw [hc] at hset
            cases hset
        have hcontent : (row.updated d.update).content = row.content := by
          simp [Draft.update, hc]
        unfold PayloadMatches
        rw [hpayload, hcontent, hcur.content hn, ← h.contentKept hc]
        exact h.payload
    · rw [hpayload]
      by_cases hl : .location ∈ request.paths
      · rw [if_pos hl]
        rcases h.locationNamed hl with hin | ⟨_, heq⟩
        · cases hin
        · exact heq
      · rw [if_neg hl, h.locationKept hl, hcur.location hl]

theorem Inv.write {extractAll : ExtractAll} {s : State} (h : Inv extractAll s) {c : Nat}
    {request : UpdateMemoRequest} {snapshot : Memo} {d : Draft}
    (hcall : s.calls c = .updating request snapshot d [])
    (hcur : .content ∈ request.paths ∨ .location ∈ request.paths →
      Current extractAll s.row snapshot request.paths) :
    Inv extractAll (s.write c request d) := by
  have hfollows := h.calls c
  rw [hcall] at hfollows
  obtain ⟨hmatches, hlocation⟩ := Follows.updated hfollows h.row hcur
  unfold State.write
  split
  · rename_i hl
    rw [if_pos hl] at hlocation
    have hle := h.located
    refine ⟨hmatches, ?_, ?_, ?_, .inr ⟨c, ?_⟩⟩
    · apply forall_update
      · exact ⟨Nat.le_refl _, fun _ => hlocation.symm⟩
      · intro j
        have hj := h.calls j
        match hcj : s.calls j with
        | .updated (some written) =>
          rw [hcj] at hj
          obtain ⟨hnum, _⟩ := hj
          exact ⟨by simp only; omega, fun heq => by simp only at heq; omega⟩
        | .updating _ _ _ _ | .rebuilding _ =>
          rw [hcj] at hj
          exact hj
        | .idle | .updated none | .passing => trivial
    · simp only
      omega
    · simp only
      omega
    · simp [Call.HoldsLast]
  · rename_i hl
    rw [if_neg hl] at hlocation
    exact h.rewrite hmatches hlocation hcall id trivial

theorem Inv.rebuild {extractAll : ExtractAll} {s : State} (h : Inv extractAll s) {c : Nat}
    {snapshot memo : Memo} (hcall : s.calls c = .rebuilding snapshot)
    (hcur : Current extractAll s.row snapshot [])
    (hm : rebuildMemoPayload extractAll snapshot = some memo) :
    Inv extractAll { s.move c .passing with row := s.row.updated (payloadUpdate memo.payload) } := by
  have hextract : extractAll snapshot.content = some ⟨memo.payload.tags, memo.payload.property⟩ := by
    rw [← rebuildMemoPayload_content hm]
    exact rebuildMemoPayload_matches hm
  refine h.rewrite ?_ ?_ hcall id trivial
  · change extractAll s.row.content = some ⟨memo.payload.tags, memo.payload.property⟩
    rw [hcur.content List.not_mem_nil]
    exact hextract
  · change memo.payload.location = s.row.payload.location
    rw [hcur.location List.not_mem_nil]
    exact rebuildMemoPayload_location hm

theorem Inv.finish {extractAll : ExtractAll} {s : State} (h : Inv extractAll s) {c : Nat}
    {written : Version Location} (hcall : s.calls c = .updated (some written))
    (horder : s.located.number ≤ written.number) :
    Inv extractAll { s.move c .idle with located := written } := by
  have hwritten := h.calls c
  rw [hcall] at hwritten
  obtain ⟨hnum, hvalue⟩ := hwritten
  refine ⟨h.row, forall_update trivial h.calls, hnum, hvalue, ?_⟩
  simp only [State.move]
  rcases h.last with heq | ⟨j, hj⟩
  · left
    omega
  · by_cases hjc : j = c
    · left
      rw [hjc, hcall] at hj
      exact hj
    · right
      refine ⟨j, ?_⟩
      rw [update_of_ne hjc]
      exact hj

theorem Inv.step {extractAll : ExtractAll} {s s' : State} {l : Label} (h : Inv extractAll s)
    (hl : Undisturbed extractAll s l) (hs : step extractAll s l = some s') :
    Inv extractAll s' := by
  cases l with
  | startUpdate c request user =>
    simp only [PayloadRuns.step] at hs
    split at hs <;> try contradiction
    rename_i hcall
    split at hs <;> cases hs
    · exact h.move hcall id (Follows.start h.row)
    · exact h
  | applyPath c answers =>
    simp only [PayloadRuns.step] at hs
    split at hs <;> try contradiction
    rename_i request snapshot d path paths hcall
    have hfollows := h.calls c
    rw [hcall] at hfollows
    split at hs <;> cases hs
    · rename_i happly
      exact h.move hcall id (Follows.round hfollows (applyPath_round happly))
    · exact h.move hcall id trivial
  | write c =>
    simp only [PayloadRuns.step] at hs
    split at hs <;> cases hs
    rename_i hcall
    simp only [Undisturbed, hcall] at hl
    exact h.write hcall hl
  | finish c =>
    simp only [PayloadRuns.step] at hs
    split at hs <;> cases hs
    · rename_i hcall
      exact h.move hcall id trivial
    · rename_i hcall
      simp only [Undisturbed, hcall] at hl
      exact h.finish hcall hl
  | fail c =>
    simp only [PayloadRuns.step] at hs
    split at hs <;> cases hs <;> rename_i hcall
    · exact h.move hcall id trivial
    · exact h.move hcall id trivial
  | startPass c =>
    simp only [PayloadRuns.step] at hs
    split at hs <;> cases hs
    rename_i hcall
    exact h.move hcall id trivial
  | list c =>
    simp only [PayloadRuns.step] at hs
    split at hs <;> cases hs
    rename_i hcall
    exact h.move hcall id h.row
  | rebuild c =>
    simp only [PayloadRuns.step] at hs
    split at hs <;> try contradiction
    rename_i snapshot hcall
    simp only [Undisturbed, hcall] at hl
    split at hs <;> cases hs
    · rename_i hm
      exact h.rebuild hcall hl hm
    · exact h.move hcall id trivial
  | endPass c =>
    simp only [PayloadRuns.step] at hs
    split at hs <;> cases hs
    rename_i hcall
    exact h.move hcall id trivial

/-- Payload and content agree at the end of every undisturbed run. -/
theorem settled_of_undisturbed (extractAll : ExtractAll) {s : State}
    (h : (system extractAll).Reaches (Undisturbed extractAll) s) : Settled extractAll s := by
  have hinv : Inv extractAll s :=
    h.invariant (fun _ => Inv.of_init) fun _ _ _ hi hc hs => hi.step hc hs
  exact hinv.settled

def extractTag (content : String) : Option Metadata :=
  some ⟨if content = "#home" then ["home"] else if content = "#work" then ["work"] else [],
    some ⟨false, false, false, false, ""⟩⟩

def homeMemo : Memo where
  id := 1
  uid := "a"
  rowStatus := .normal
  creatorId := 1
  createdTs := 0
  updatedTs := 0
  content := "#home"
  visibility := .Private
  pinned := false
  payload := ⟨some ⟨false, false, false, false, ""⟩, none, ["home"]⟩
  parentUid := none

def homeState : State := ⟨homeMemo, fun _ => .idle, 0, ⟨0, none⟩⟩

theorem init_homeState : Init extractTag homeState := ⟨rfl, fun _ => rfl, rfl, rfl⟩

def requestOf (content : String) (location : Option MemoPayload.Location) (paths : List Path) :
    UpdateMemoRequest :=
  ⟨content, .Private, false, .normal, none, none, location, paths⟩

def owner : Option (Option User) := some (some ⟨1, false⟩)

def allFine : Answers := ⟨some 8192, some none, 0, some (), some ()⟩

def oslo : MemoPayload.Location := ⟨"Oslo", 60, 11⟩

def sequential : List Label :=
  [.startUpdate 0 (requestOf "#work" none [.content]) owner, .applyPath 0 allFine, .write 0,
    .finish 0,
    .startUpdate 1 (requestOf "" (some oslo) [.location]) owner, .applyPath 1 allFine, .write 1,
    .finish 1]

theorem settled_sequential : ∃ s, (system extractTag).run homeState sequential = some s ∧
    s.row.payload = ⟨some ⟨false, false, false, false, ""⟩, some oslo, ["work"]⟩ ∧
      Settled extractTag s := by
  have hm : (system extractTag).Meets (Undisturbed extractTag) homeState sequential :=
    ⟨trivial, trivial, fun _ => ⟨fun _ => rfl, fun _ => rfl⟩, trivial,
      trivial, trivial, fun _ => ⟨fun _ => rfl, fun _ => rfl⟩, Nat.zero_le _, trivial⟩
  exact ⟨_, rfl, rfl, settled_of_undisturbed extractTag (.run (.init init_homeState) hm rfl)⟩

/-- Update 0 of the location and update 1 of the content read the same snapshot; update 0 writes
last and puts the old tags beside the new content. -/
theorem location_update_restores_tags :
    ∃ s, (system extractTag).Reaches (fun _ _ => True) s ∧
      s.row.content = "#work" ∧ s.row.payload.tags = ["home"] ∧ ¬Settled extractTag s := by
  have hrun : ∃ s, (system extractTag).run homeState
      [.startUpdate 0 (requestOf "" (some oslo) [.location]) owner,
        .startUpdate 1 (requestOf "#work" none [.content]) owner,
        .applyPath 0 allFine, .applyPath 1 allFine,
        .write 1, .finish 1, .write 0, .finish 0] = some s ∧
      s.row.content = "#work" ∧ s.row.payload.tags = ["home"] ∧ ∀ c, s.calls c = .idle :=
    ⟨_, rfl, rfl, rfl, fun | 0 => rfl | 1 => rfl | _ + 2 => rfl⟩
  obtain ⟨s, hs, hcontent, htags, hidle⟩ := hrun
  refine ⟨s, .run (.init init_homeState) (LabelledSystem.meets_true _ _) hs, hcontent, htags,
    fun h => ?_⟩
  obtain ⟨hmatches, _⟩ := h hidle
  unfold PayloadMatches at hmatches
  rw [hcontent, htags] at hmatches
  simp [extractTag] at hmatches

end Memoark.Server.PayloadRuns
