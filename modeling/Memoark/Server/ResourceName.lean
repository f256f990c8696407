import Memoark.Program.Returns
import Memoark.Server.ReadMemos

/-! The names of resources (`resource_name.go`): the tokens between the prefixes of a name, and the
numbers among them. -/
namespace Memoark.Server
open Store

/-- The loop of `GetNameParentTokens`, over the parts that it has not read. -/
def parentTokens (name : String) :
    List String → List (List Char) → Except String (List String)
  | tokenPrefix :: tokenPrefixes, head :: token :: parts =>
    if String.ofList head ++ "/" ≠ tokenPrefix then
      .error ("invalid prefix " ++ Go.quoted tokenPrefix ++ " in request " ++ Go.quoted name)
    else if token = [] then
      .error ("invalid request " ++ Go.quoted name ++ " with empty prefix " ++
        Go.quoted tokenPrefix)
    else (parentTokens name tokenPrefixes parts).map (String.ofList token :: ·)
  | _, _ => .ok []

def getNameParentTokens (name : String) (tokenPrefixes : List String) :
    Except String (List String) :=
  let parts := name.toList.splitOn '/'
  if parts.length ≠ 2 * tokenPrefixes.length then .error ("invalid request " ++ Go.quoted name)
  else parentTokens name tokenPrefixes parts

/-- `util.ConvertStringToInt32`: `strconv.ParseInt` in base 10, with 32 bits. -/
def convertStringToInt32 (src : String) : Option Int :=
  (Go.atoi src.toList).filter fun n => -2147483648 ≤ n ∧ n ≤ 2147483647

def extractMemoReactionIDFromName (name : String) : Except String (String × Int) := do
  match ← getNameParentTokens name ["memos/", "reactions/"] with
  | [memoUID, token] =>
    match convertStringToInt32 token with
    | some reactionID => .ok (memoUID, reactionID)
    | none => .error ("invalid reaction ID " ++ Go.quoted token)
  | _ => .error ("invalid request " ++ Go.quoted name)

def resourceName (tokenPrefixes tokens : List String) : String :=
  "/".intercalate (List.zipWith (· ++ ·) tokenPrefixes tokens)

/-- A text that can stand between two slashes. -/
def IsToken (token : String) : Prop := token ≠ "" ∧ '/' ∉ token.toList

def IsTokenPrefix (tokenPrefix : String) : Prop :=
  ∃ head : String, '/' ∉ head.toList ∧ tokenPrefix = head ++ "/"

section tokens

variable {name : String} {tokenPrefix token : String} {tokenPrefixes tokens : List String}

def nameParts : List String → List String → List (List Char)
  | tokenPrefix :: tokenPrefixes, token :: tokens =>
    tokenPrefix.toList.dropLast :: token.toList :: nameParts tokenPrefixes tokens
  | _, _ => []

@[simp] theorem nameParts_nil : nameParts [] tokens = [] := rfl

@[simp] theorem nameParts_cons : nameParts (tokenPrefix :: tokenPrefixes) (token :: tokens) =
    tokenPrefix.toList.dropLast :: token.toList :: nameParts tokenPrefixes tokens := rfl

@[simp] theorem parentTokens_nil : parentTokens name [] [] = .ok [] := rfl

theorem parentTokens_cons {head token : List Char} {parts : List (List Char)} :
    parentTokens name (tokenPrefix :: tokenPrefixes) (head :: token :: parts) =
      if String.ofList head ++ "/" ≠ tokenPrefix then
        .error ("invalid prefix " ++ Go.quoted tokenPrefix ++ " in request " ++ Go.quoted name)
      else if token = [] then
        .error ("invalid request " ++ Go.quoted name ++ " with empty prefix " ++
          Go.quoted tokenPrefix)
      else (parentTokens name tokenPrefixes parts).map (String.ofList token :: ·) := rfl

theorem toList_dropLast (head : String) : (head ++ "/").toList.dropLast = head.toList := by
  have hslash : ("/" : String).toList = ['/'] := rfl
  rw [String.toList_append, hslash, List.dropLast_concat]

theorem intercalate_nameParts (hwords : ∀ p ∈ tokenPrefixes, IsTokenPrefix p) :
    ['/'].intercalate (nameParts tokenPrefixes tokens) =
      (resourceName tokenPrefixes tokens).toList := by
  have hslash : ("/" : String).toList = ['/'] := rfl
  rw [resourceName, String.toList_intercalate, hslash]
  induction tokenPrefixes generalizing tokens with
  | nil => rfl
  | cons p ps ih =>
    cases tokens with
    | nil => rfl
    | cons t ts =>
      obtain ⟨head, -, rfl⟩ := hwords p List.mem_cons_self
      have ih := @ih ts fun q hq => hwords q (List.mem_cons_of_mem _ hq)
      have hstart : ['/'].intercalate [head.toList, t.toList] = ((head ++ "/") ++ t).toList := by
        simp [List.intercalate, String.toList_append]
      simp only [nameParts_cons, List.zipWith_cons_cons, List.map_cons, toList_dropLast]
      cases hrest : nameParts ps ts with
      | nil =>
        have hnone : List.zipWith (fun a b : String => a ++ b) ps ts = [] := by
          cases ps with
          | nil => rfl
          | cons q qs =>
            cases ts with
            | nil => rfl
            | cons u us => cases hrest
        rw [hnone, hstart, List.map_nil, List.intercalate_singleton]
      | cons part parts =>
        have hmore : (List.zipWith (fun a b : String => a ++ b) ps ts).map String.toList ≠ [] := by
          intro hnil
          cases ps with
          | nil => cases hrest
          | cons q qs =>
            cases ts with
            | nil => cases hrest
            | cons u us => cases hnil
        rw [hrest] at ih
        rw [List.intercalate_cons_of_ne_nil (List.cons_ne_nil _ _),
          List.intercalate_cons_of_ne_nil (List.cons_ne_nil _ _),
          List.intercalate_cons_of_ne_nil hmore, ih]
        simp [String.toList_append]

theorem parentTokens_cons_ok {word : String} {head token : List Char} {parts : List (List Char)} :
    parentTokens name ((word ++ "/") :: tokenPrefixes) (head :: token :: parts) = .ok tokens ↔
      head = word.toList ∧ token ≠ [] ∧ ∃ rest, parentTokens name tokenPrefixes parts = .ok rest ∧
        String.ofList token :: rest = tokens := by
  have hhead : String.ofList head ++ "/" = word ++ "/" ↔ head = word.toList := by
    refine ⟨fun h => ?_, fun h => by rw [h, String.ofList_toList]⟩
    have hlist := congrArg (fun s : String => s.toList.dropLast) h
    simpa only [toList_dropLast, String.toList_ofList] using hlist
  rw [parentTokens_cons]
  by_cases hword : head = word.toList
  · rw [if_neg (not_not.mpr (hhead.mpr hword))]
    by_cases hempty : token = []
    · simp [hempty]
    · rw [if_neg hempty]
      refine ⟨fun h => ⟨hword, hempty, Program.map_ok h⟩, ?_⟩
      rintro ⟨-, -, rest, hrest, rfl⟩
      rw [hrest]
      rfl
  · rw [if_pos (mt hhead.mp hword)]
    simp [hword]

theorem parentTokens_ok_iff (hwords : ∀ p ∈ tokenPrefixes, IsTokenPrefix p)
    {parts : List (List Char)} (hlength : parts.length = 2 * tokenPrefixes.length)
    (hparts : ∀ part ∈ parts, '/' ∉ part) :
    parentTokens name tokenPrefixes parts = .ok tokens ↔
      tokens.length = tokenPrefixes.length ∧ (∀ token ∈ tokens, IsToken token) ∧
        parts = nameParts tokenPrefixes tokens := by
  induction tokenPrefixes generalizing parts tokens with
  | nil =>
    obtain rfl : parts = [] := List.eq_nil_of_length_eq_zero hlength
    constructor
    · intro h
      obtain rfl := Except.ok.inj h
      simp
    · rintro ⟨htokens, -, -⟩
      rw [List.eq_nil_of_length_eq_zero htokens, parentTokens_nil]
  | cons p ps ih =>
    match parts, hlength with
    | head :: token :: rest, hlength =>
      obtain ⟨word, hword, rfl⟩ := hwords p List.mem_cons_self
      have hrest : rest.length = 2 * ps.length := by simp at hlength; omega
      have ih := fun tokens => @ih tokens (fun q hq => hwords q (List.mem_cons_of_mem _ hq)) rest
        hrest fun part hpart => hparts part (by simp [hpart])
      have htoken : '/' ∉ token := hparts token (by simp)
      rw [parentTokens_cons_ok]
      constructor
      · rintro ⟨rfl, hempty, ts, hts, rfl⟩
        obtain ⟨hcount, hall, heq⟩ := (ih ts).mp hts
        have hfirst : IsToken (String.ofList token) := by simp [IsToken, hempty, htoken]
        exact ⟨by simp [hcount], List.forall_mem_cons.mpr ⟨hfirst, hall⟩, by simp [heq]⟩
      · rintro ⟨hcount, htokens, heq⟩
        cases tokens with
        | nil => cases hcount
        | cons t ts =>
          obtain ⟨hhead, heq⟩ := List.cons.inj heq
          obtain ⟨rfl, htail⟩ := List.cons.inj heq
          obtain ⟨ht, hts⟩ := List.forall_mem_cons.mp htokens
          rw [toList_dropLast] at hhead
          have hempty : t.toList ≠ [] := by simpa using ht.1
          have hread := (ih ts).mpr ⟨by simpa using hcount, hts, htail⟩
          exact ⟨hhead, hempty, ts, hread, by rw [String.ofList_toList]⟩

theorem slash_not_mem_nameParts (hwords : ∀ p ∈ tokenPrefixes, IsTokenPrefix p)
    (htokens : ∀ token ∈ tokens, IsToken token) :
    ∀ part ∈ nameParts tokenPrefixes tokens, '/' ∉ part := by
  induction tokenPrefixes generalizing tokens with
  | nil => simp
  | cons p ps ih =>
    cases tokens with
    | nil =>
      intro part hpart
      cases hpart
    | cons t ts =>
      obtain ⟨head, hhead, rfl⟩ := hwords p List.mem_cons_self
      intro part hpart
      rw [nameParts_cons, toList_dropLast] at hpart
      rcases List.mem_cons.mp hpart with rfl | hpart
      · exact hhead
      · rcases List.mem_cons.mp hpart with rfl | hpart
        · exact (htokens t List.mem_cons_self).2
        · exact ih (fun q hq => hwords q (List.mem_cons_of_mem _ hq))
            (fun u hu => htokens u (List.mem_cons_of_mem _ hu)) part hpart

theorem length_nameParts (hcount : tokens.length = tokenPrefixes.length) :
    (nameParts tokenPrefixes tokens).length = 2 * tokenPrefixes.length := by
  induction tokenPrefixes generalizing tokens with
  | nil => rfl
  | cons p ps ih =>
    cases tokens with
    | nil => cases hcount
    | cons t ts =>
      have ih := @ih ts (by simpa using hcount)
      simp only [nameParts_cons, List.length_cons, ih]
      omega

theorem splitOn_resourceName (hne : tokenPrefixes ≠ [])
    (hwords : ∀ p ∈ tokenPrefixes, IsTokenPrefix p) (hcount : tokens.length = tokenPrefixes.length)
    (htokens : ∀ token ∈ tokens, IsToken token) :
    (resourceName tokenPrefixes tokens).toList.splitOn '/' = nameParts tokenPrefixes tokens := by
  have hlength := length_nameParts hcount
  have hpos : 0 < tokenPrefixes.length := List.length_pos_iff.mpr hne
  rw [← intercalate_nameParts hwords]
  apply List.splitOn_intercalate '/' (slash_not_mem_nameParts hwords htokens)
  apply List.ne_nil_of_length_pos
  omega

theorem getNameParentTokens_ok_iff (hne : tokenPrefixes ≠ [])
    (hwords : ∀ p ∈ tokenPrefixes, IsTokenPrefix p) :
    getNameParentTokens name tokenPrefixes = .ok tokens ↔
      tokens.length = tokenPrefixes.length ∧ (∀ token ∈ tokens, IsToken token) ∧
        name = resourceName tokenPrefixes tokens := by
  have hjoin : ['/'].intercalate (name.toList.splitOn '/') = name.toList :=
    List.intercalate_splitOn '/'
  have hparts : ∀ part ∈ name.toList.splitOn '/', '/' ∉ part := by
    intro part hpart hmem
    rw [List.splitOn_eq_splitOnP] at hpart
    simpa using (Go.of_mem_splitOnP hpart hmem).2
  rw [getNameParentTokens]
  by_cases hlength : (name.toList.splitOn '/').length = 2 * tokenPrefixes.length
  · rw [if_neg (not_not.mpr hlength), parentTokens_ok_iff hwords hlength hparts]
    refine and_congr_right fun hcount => and_congr_right fun htokens => ?_
    constructor
    · intro h
      apply String.toList_inj.mp
      rw [← hjoin, h, intercalate_nameParts hwords]
    · rintro rfl
      exact splitOn_resourceName hne hwords hcount htokens
  · rw [if_pos hlength]
    refine iff_of_false (by simp) ?_
    rintro ⟨hcount, htokens, rfl⟩
    apply hlength
    rw [splitOn_resourceName hne hwords hcount htokens, length_nameParts hcount]

theorem getNameParentTokens_singleton :
    getNameParentTokens name [tokenPrefix] = (getNameParentToken name tokenPrefix).map ([·]) := by
  unfold getNameParentTokens getNameParentToken
  match name.toList.splitOn '/' with
  | [] => rfl
  | [_] => rfl
  | [head, token] =>
    simp only [List.length_cons, List.length_nil, parentTokens_cons, parentTokens_nil]
    by_cases hhead : String.ofList head ++ "/" = tokenPrefix
    · by_cases htoken : token = []
      · simp [hhead, htoken, Except.map]
      · simp [hhead, htoken, Except.map]
    · simp [hhead, Except.map]
  | _ :: _ :: _ :: _ =>
    simp [Except.map]

end tokens

section ids

variable {name uid : String} {n : Int}

theorem isTokenPrefix_of_word (head : String) (h : '/' ∉ head.toList) :
    IsTokenPrefix (head ++ "/") := ⟨head, h, rfl⟩

theorem isTokenPrefix_memos : IsTokenPrefix "memos/" :=
  isTokenPrefix_of_word "memos" (by simp)

theorem isTokenPrefix_reactions : IsTokenPrefix "reactions/" :=
  isTokenPrefix_of_word "reactions" (by simp)

theorem isTokenPrefix_shares : IsTokenPrefix "shares/" :=
  isTokenPrefix_of_word "shares" (by simp)

theorem memoName_of_extract (h : extractMemoUIDFromName name = .ok uid) : name = memoName uid := by
  have hread : getNameParentTokens name ["memos/"] = .ok [uid] := by
    rw [getNameParentTokens_singleton, ← extractMemoUIDFromName, h]
    rfl
  have hprefixes : ∀ p ∈ ["memos/"], IsTokenPrefix p := by simp [isTokenPrefix_memos]
  obtain ⟨-, -, rfl⟩ := (getNameParentTokens_ok_iff (List.cons_ne_nil _ _) hprefixes).mp hread
  apply String.toList_inj.mp
  simp [resourceName, memoName, String.toList_append]

theorem convertStringToInt32_toString {n : Nat} (h : n ≤ 2147483647) :
    convertStringToInt32 (toString n) = some (n : Int) := by
  have htext : (toString n).toList = Nat.toDigits 10 n := by simp [toString, Nat.repr]
  have hall : (Nat.toDigits 10 n).all Char.isDigit :=
    List.all_eq_true.mpr fun c hc => Nat.isDigit_of_mem_toDigits (by omega) (by omega) hc
  have hparse : Go.parseDigits (Nat.toDigits 10 n) = some n := by
    rw [Go.parseDigits, if_pos ⟨Nat.toDigits_ne_nil, hall⟩, Nat.ofDigitChars_ten_toDigits]
  have hlt : n < 9223372036854775808 := by omega
  rw [convertStringToInt32, htext, Go.atoi_digits hall, hparse, Option.bind_some, if_pos hlt]
  simp
  omega

/-- A number has neither a slash in its text nor an empty text. -/
theorem isToken_of_convertStringToInt32 {token : String}
    (h : convertStringToInt32 token = some n) : IsToken token := by
  obtain ⟨hatoi, -⟩ := Option.filter_eq_some_iff.mp h
  constructor
  · rintro rfl
    cases hatoi
  · intro hmem
    have hslash := Go.digit_or_sign_of_atoi hatoi hmem
    revert hslash
    decide

/-- The reaction of a name is the one that the name was made of: a name is read exactly if it is
made of a token and the text of a number, and the name that a reaction is answered with leads back
to its memo and its id. -/
theorem extractMemoReactionIDFromName_exact :
    (extractMemoReactionIDFromName name = .ok (uid, n) ↔
      IsToken uid ∧ ∃ token, convertStringToInt32 token = some n ∧
        name = memoName uid ++ "/reactions/" ++ token) ∧
    ∀ (reaction : ReactionRecord) (creator : UserRecord), IsToken uid → reaction.id ≤ 2147483647 →
      reaction.contentId = memoName uid →
      extractMemoReactionIDFromName (convertReaction reaction creator).name =
        .ok (uid, (reaction.id : Int)) := by
  have hprefixes : ∀ p ∈ ["memos/", "reactions/"], IsTokenPrefix p := by
    simp [isTokenPrefix_memos, isTokenPrefix_reactions]
  have hname : ∀ uid token, resourceName ["memos/", "reactions/"] [uid, token] =
      memoName uid ++ "/reactions/" ++ token := by
    intro uid token
    apply String.toList_inj.mp
    simp [resourceName, memoName, String.toList_append]
  have hread : ∀ {name uid token}, getNameParentTokens name ["memos/", "reactions/"] =
      .ok [uid, token] ↔ (IsToken uid ∧ IsToken token) ∧
        name = memoName uid ++ "/reactions/" ++ token := by
    intro name uid token
    rw [getNameParentTokens_ok_iff (List.cons_ne_nil _ _) hprefixes, hname]
    simp
  have hexact : ∀ {name uid} {n : Int}, extractMemoReactionIDFromName name = .ok (uid, n) ↔
      IsToken uid ∧ ∃ token, convertStringToInt32 token = some n ∧
        name = memoName uid ++ "/reactions/" ++ token := by
    intro name uid n
    constructor
    · intro h
      obtain ⟨tokens, htokens, h⟩ := Program.bind_ok h
      have hcount := ((getNameParentTokens_ok_iff (List.cons_ne_nil _ _) hprefixes).mp htokens).1
      match tokens, hcount with
      | [uid', token], _ =>
        dsimp only at h
        cases hid : convertStringToInt32 token with
        | none =>
          rw [hid] at h
          cases h
        | some id =>
          rw [hid] at h
          cases h
          obtain ⟨⟨huid, -⟩, heq⟩ := hread.mp htokens
          exact ⟨huid, token, hid, heq⟩
    · rintro ⟨huid, token, hid, heq⟩
      have htokens := hread.mpr ⟨⟨huid, isToken_of_convertStringToInt32 hid⟩, heq⟩
      rw [extractMemoReactionIDFromName, htokens]
      simp only [bind, Except.bind, hid]
  refine ⟨hexact, fun reaction creator huid hid hcontent => hexact.mpr ⟨huid, ?_⟩⟩
  refine ⟨toString reaction.id, convertStringToInt32_toString hid, ?_⟩
  rw [convertReaction, hcontent]

theorem extractMemoReactionIDFromName_exact_thumb :
    extractMemoReactionIDFromName "memos/m1/reactions/07" = .ok ("m1", 7) ∧
      extractMemoReactionIDFromName
        (convertReaction ⟨7, 0, 1, memoName "m1", "👍"⟩ ⟨1, .normal, "ann", .USER⟩).name =
        .ok ("m1", 7) := by
  have htoken : IsToken "m1" := ⟨by decide, by decide⟩
  constructor
  · exact extractMemoReactionIDFromName_exact.1.mpr ⟨htoken, "07", by decide, by decide⟩
  · exact (@extractMemoReactionIDFromName_exact "" "m1" 0).2 ⟨7, 0, 1, _, _⟩ _ htoken
      (by decide) rfl

end ids

end Memoark.Server
