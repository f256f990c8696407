import Mathlib.Data.List.Induction
import Memoark.Go.Strings
import Memoark.Js.TextDecoder
import Memoark.Syntax.Split
import Memoark.Web.EventJson

/-! The stream that `handleSSE` writes, and the loop of `useLiveMemoRefresh` that reads it in chunks. -/
namespace Memoark.Web
open Go Js Server.Sse Syntax

inductive Frame where
  | connected
  | heartbeat
  | event (e : SSEEvent)

def Frame.text : Frame → String
  | .connected => ": connected\n\n"
  | .heartbeat => ": heartbeat\n\n"
  | .event e => "data: " ++ e.JSON ++ "\n\n"

/-- The handler waits for an event in the channel, or the ticker. -/
inductive Ready where
  | events (e : SSEEvent)
  | ticker

def handleSSE (ready : List Ready) : List Frame :=
  .connected :: ready.map fun
    | .events e => .event e
    | .ticker => .heartbeat

def Frame.bytes (f : Frame) : List UInt8 := utf8 f.text

def stream (frames : List Frame) : List UInt8 := frames.flatMap Frame.bytes

def lineEvent (line : Units) : Option JsonValue :=
  if (utf16 "data: ").isPrefixOf line then jsonParse (line.drop 6) else none

def messageEvents (message : Units) : List JsonValue :=
  if blank message then []
  else
    let (lines, last) := splitLast (ascii '\n') [] message
    (lines ++ [last]).filterMap lineEvent

structure ReadLoop where
  decoder : TextDecoder
  buffer : Units
  handled : List JsonValue

/-- What is behind the last double line break stays in the buffer. -/
def ReadLoop.read (s : ReadLoop) (value : List UInt8) : ReadLoop :=
  let decoded := s.decoder.decode value
  let messages :=
    splitLast (ascii '\n') [ascii '\n'] (s.buffer ++ decoded.2.flatMap charUnits)
  { decoder := decoded.1
    buffer := messages.2
    handled := s.handled ++ messages.1.flatMap messageEvents }

def readLoop (chunks : List (List UInt8)) : ReadLoop :=
  chunks.foldl ReadLoop.read ⟨.new, [], []⟩

def arrived : Nat → List Frame → List Frame
  | _, [] => []
  | n, f :: frames =>
    if f.bytes.length ≤ n then f :: arrived (n - f.bytes.length) frames else []

def Frame.event? : Frame → Option SSEEvent
  | .event e => some e
  | _ => none

section chunks

def messagesOf (bytes : List UInt8) : List Units × Units :=
  splitLast (ascii '\n') [ascii '\n'] ((TextDecoder.new.decode bytes).2.flatMap charUnits)

theorem readLoop_eq (chunks : List (List UInt8)) :
    (readLoop chunks).decoder = (TextDecoder.new.decode chunks.flatten).1 ∧
      (readLoop chunks).buffer = (messagesOf chunks.flatten).2 ∧
      (readLoop chunks).handled = (messagesOf chunks.flatten).1.flatMap messageEvents := by
  induction chunks using List.reverseRecOn with
  | nil => exact ⟨rfl, by simp [readLoop, messagesOf, TextDecoder.decode, splitLast],
      by simp [readLoop, messagesOf, TextDecoder.decode, splitLast]⟩
  | append_singleton chunks chunk ih =>
    obtain ⟨hdecoder, hbuffer, hhandled⟩ := ih
    have hread : readLoop (chunks ++ [chunk]) = (readLoop chunks).read chunk :=
      List.foldl_append
    have hflatten : (chunks ++ [chunk]).flatten = chunks.flatten ++ chunk := by simp
    have hmessages : splitLast (ascii '\n') [ascii '\n']
        ((TextDecoder.new.decode chunks.flatten).2.flatMap charUnits ++
          ((TextDecoder.new.decode chunks.flatten).1.decode chunk).2.flatMap charUnits) = _ :=
      splitLast_append _ _
    rw [← List.flatMap_append] at hmessages
    rw [hread, hflatten, ReadLoop.read, hdecoder, hbuffer, hhandled]
    unfold messagesOf
    rw [TextDecoder.decode_append, hmessages]
    refine ⟨rfl, rfl, ?_⟩
    rw [List.flatMap_append]

end chunks

section frames

theorem utf8_append (s t : String) : utf8 (s ++ t) = utf8 s ++ utf8 t := by
  rw [utf8, String.toList_append, List.flatMap_append]
  rfl

def Frame.body : Frame → String
  | .connected => ": connected"
  | .heartbeat => ": heartbeat"
  | .event e => "data: " ++ e.JSON

theorem Frame.text_eq (f : Frame) : f.text = f.body ++ "\n\n" := by
  cases f with
  | connected => rfl
  | heartbeat => rfl
  | event e => rfl

theorem Frame.newline_body (f : Frame) : '\n' ∉ f.body.toList := by
  cases f with
  | connected => decide
  | heartbeat => decide
  | event e =>
    have hJSON := newline_JSON e
    simp [Frame.body, String.toList_append, hJSON]

theorem newline_charUnits {c : Char} (h : ascii '\n' ∈ charUnits c) : c = '\n' := by
  have hvalid := toNat_lt_of_valid c
  have hten : (ascii '\n').toNat = 10 := rfl
  unfold charUnits at h
  split at h
  · rename_i hsmall
    have hnat := congrArg UInt16.toNat (List.mem_singleton.mp h)
    rw [toNat_ofNat_lt hsmall, hten] at hnat
    exact Char.toNat_inj.mp hnat.symm
  · rcases List.mem_cons.mp h with h | h
    · have hnat := congrArg UInt16.toNat h
      rw [toNat_ofNat_lt (by omega), hten] at hnat
      omega
    · have hnat := congrArg UInt16.toNat (List.mem_singleton.mp h)
      rw [toNat_ofNat_lt (by omega), hten] at hnat
      omega

theorem Frame.newline_units (f : Frame) : ascii '\n' ∉ utf16 f.body := by
  intro h
  obtain ⟨c, hc, hunit⟩ := List.mem_flatMap.mp h
  rw [newline_charUnits hunit] at hc
  exact f.newline_body hc

theorem messageEvents_body (f : Frame) :
    messageEvents (utf16 f.body) = (f.event?.map eventObject).toList := by
  have hlines : splitLast (ascii '\n') [] (utf16 f.body) = ([], utf16 f.body) := by
    refine splitLast_of_not_infix fun h => f.newline_units ?_
    exact h.subset (List.mem_singleton_self _)
  unfold messageEvents
  rw [hlines]
  cases f with
  | connected => rfl
  | heartbeat => rfl
  | event e =>
    have hbody : utf16 (Frame.event e).body = utf16 "data: " ++ utf16 e.JSON := utf16_append _ _
    have hblank : blank (utf16 (Frame.event e).body) = false := by
      have hdata : (utf16 "data: ").all isWhiteSpaceUnit = false := by decide
      rw [hbody, blank, List.all_append, hdata, Bool.false_and]
    have hline : lineEvent (utf16 (Frame.event e).body) = some (eventObject e) := by
      have hprefix : (utf16 "data: ").isPrefixOf (utf16 "data: " ++ utf16 e.JSON) = true :=
        List.isPrefixOf_iff_prefix.mpr (List.prefix_append _ _)
      have hlength : (utf16 "data: ").length = 6 := by decide
      have hrest : (utf16 "data: " ++ utf16 e.JSON).drop 6 = utf16 e.JSON := List.drop_left' hlength
      rw [hbody, lineEvent, if_pos hprefix, hrest, jsonParse_JSON]
    rw [hblank]
    simp [hline, Frame.event?]

/-- What is read between two frames: no character has been started. -/
def Between (d : TextDecoder) : Prop := d = .new ∨ d = .ready true

theorem Between.lower {d : TextDecoder} (h : Between d) : 0x80 ≤ d.lowerBoundary := by
  rcases h with rfl | rfl <;> exact Nat.le_refl 0x80

theorem Frame.text_head (f : Frame) : ∃ c cs, f.text.toList = c :: cs ∧ c ≠ '\uFEFF' := by
  cases f with
  | connected => exact ⟨':', " connected\n\n".toList, rfl, by decide⟩
  | heartbeat => exact ⟨':', " heartbeat\n\n".toList, rfl, by decide⟩
  | event e =>
    refine ⟨'d', "ata: ".toList ++ e.JSON.toList ++ "\n\n".toList, ?_, by decide⟩
    rw [Frame.text, String.toList_append, String.toList_append]
    rfl

theorem decode_frame {d : TextDecoder} (h : Between d) (f : Frame) :
    d.decode f.bytes = (.ready true, f.text.toList) := by
  rcases h with rfl | rfl
  · obtain ⟨c, cs, htext, hc⟩ := f.text_head
    rw [Frame.bytes, utf8, htext]
    exact TextDecoder.decode_new hc cs
  · exact TextDecoder.decode_utf8 _

theorem decode_stream {d : TextDecoder} (h : Between d) (frames : List Frame) :
    Between (d.decode (stream frames)).1 ∧
      (d.decode (stream frames)).2 = frames.flatMap fun f => f.text.toList := by
  induction frames generalizing d with
  | nil => exact ⟨h, rfl⟩
  | cons f frames ih =>
    obtain ⟨hbetween, htext⟩ := ih (.inr rfl)
    have hbytes : stream (f :: frames) = f.bytes ++ stream frames := List.flatMap_cons
    rw [hbytes, TextDecoder.decode_append, decode_frame h, htext]
    refine ⟨hbetween, ?_⟩
    rw [List.flatMap_cons]

theorem Frame.bytes_last (f : Frame) : ∃ bytes, f.bytes = bytes ++ [10] := by
  refine ⟨utf8 (f.body ++ "\n"), ?_⟩
  have htwo : ("\n\n" : String) = "\n" ++ "\n" := rfl
  have hone : utf8 "\n" = [10] := rfl
  rw [Frame.bytes, f.text_eq, htwo, ← String.append_assoc, utf8_append, hone]

theorem decode_partial {d : TextDecoder} (h : Between d) {f : Frame} {part : List UInt8}
    (hpart : part <+: f.bytes) (hne : part ≠ f.bytes) :
    ∃ more, more ≠ [] ∧ (d.decode part).2 ++ more = f.text.toList := by
  obtain ⟨rest, hrest⟩ := hpart
  have hwhole := decode_frame h f
  rw [← hrest, TextDecoder.decode_append] at hwhole
  refine ⟨_, ?_, (Prod.mk.inj hwhole).2⟩
  -- the last byte is the one of the line break
  obtain ⟨bytes, hbytes⟩ := f.bytes_last
  have hrestne : rest ≠ [] := by
    rintro rfl
    rw [List.append_nil] at hrest
    exact hne hrest
  obtain ⟨front, last, rfl⟩ := (List.eq_nil_or_concat' rest).resolve_left hrestne
  have hlast : last = 10 := by
    rw [hbytes, ← List.append_assoc] at hrest
    exact (List.append_inj' hrest rfl).2 |> List.singleton_inj.mp
  rw [hlast, TextDecoder.decode_append]
  refine List.append_ne_nil_of_right_ne_nil _ ?_
  exact TextDecoder.decode_newline
    (TextDecoder.lower_decode (TextDecoder.lower_decode h.lower part) front)

end frames

section split

theorem split_incomplete {f : Frame} {text more : List Char} (hmore : more ≠ [])
    (h : text ++ more = f.text.toList) :
    splitLast (ascii '\n') [ascii '\n'] (text.flatMap charUnits) =
      ([], text.flatMap charUnits) := by
  refine splitLast_of_not_infix fun hinfix => ?_
  have hunits : text.flatMap charUnits ++ more.flatMap charUnits =
      utf16 f.body ++ [ascii '\n'] ++ [ascii '\n'] := by
    rw [← List.flatMap_append, h, f.text_eq, List.append_assoc]
    exact utf16_append f.body "\n\n"
  have hne : more.flatMap charUnits ≠ [] := by
    obtain ⟨c, cs, rfl⟩ := List.exists_cons_of_ne_nil hmore
    have hc : charUnits c ≠ [] := by
      unfold charUnits
      split <;> exact List.cons_ne_nil _ _
    rw [List.flatMap_cons]
    exact List.append_ne_nil_of_left_ne_nil hc _
  obtain ⟨front, last, hlast⟩ := (List.eq_nil_or_concat' _).resolve_left hne
  -- so there is at most one line break
  rw [hlast, ← List.append_assoc] at hunits
  have hfront := (List.append_inj' hunits rfl).1
  have hcount : (text.flatMap charUnits).count (ascii '\n') ≤ 1 := by
    have hle := (List.sublist_append_left (text.flatMap charUnits) front).count_le (ascii '\n')
    rw [hfront, List.count_append, List.count_eq_zero.mpr f.newline_units] at hle
    simpa using hle
  have htwo := hinfix.sublist.count_le (ascii '\n')
  rw [List.count_cons_self, List.count_cons_self] at htwo
  omega

theorem split_frames (frames : List Frame) (rest : Units) :
    splitLast (ascii '\n') [ascii '\n']
        ((frames.flatMap fun f => f.text.toList).flatMap charUnits ++ rest) =
      (frames.map (fun f => utf16 f.body) ++ (splitLast (ascii '\n') [ascii '\n'] rest).1,
        (splitLast (ascii '\n') [ascii '\n'] rest).2) := by
  induction frames with
  | nil => rfl
  | cons f frames ih =>
    have htext : f.text.toList.flatMap charUnits =
        utf16 f.body ++ [ascii '\n', ascii '\n'] := by
      rw [f.text_eq]
      exact utf16_append f.body "\n\n"
    rw [List.flatMap_cons, List.flatMap_append, htext, List.append_assoc, List.append_assoc]
    have hpart : splitLast (ascii '\n') [ascii '\n'] (utf16 f.body ++ ascii '\n' ::
        ([ascii '\n'] ++ ((frames.flatMap fun f => f.text.toList).flatMap charUnits ++ rest))) = _ :=
      splitLast_part f.newline_units _
    refine hpart.trans ?_
    rw [ih]
    rfl

end split

section arrival

theorem arrived_spec {frames : List Frame} {bytes : List UInt8} (h : bytes <+: stream frames) :
    ∃ part, bytes = stream (arrived bytes.length frames) ++ part ∧
      (part = [] ∨ ∃ f : Frame, part <+: f.bytes ∧ part ≠ f.bytes) := by
  induction frames generalizing bytes with
  | nil =>
    have hnil : bytes = [] := List.prefix_nil.mp h
    exact ⟨[], by rw [hnil]; rfl, .inl rfl⟩
  | cons f frames ih =>
    have hstream : stream (f :: frames) = f.bytes ++ stream frames := List.flatMap_cons
    rw [hstream] at h
    rw [arrived]
    split
    · rename_i hlen
      obtain ⟨bytes', rfl⟩ := List.prefix_of_prefix_length_le (List.prefix_append _ _) h hlen
      obtain ⟨part, hbytes', hpart⟩ := ih ((List.prefix_append_right_inj f.bytes).mp h)
      refine ⟨part, ?_, hpart⟩
      have hrest : (f.bytes ++ bytes').length - f.bytes.length = bytes'.length := by
        rw [List.length_append, Nat.add_sub_cancel_left]
      have hmore : stream (f :: arrived bytes'.length frames) =
          f.bytes ++ stream (arrived bytes'.length frames) := List.flatMap_cons
      rw [hrest, hmore, List.append_assoc, ← hbytes']
    · rename_i hlen
      have hpart : bytes <+: f.bytes :=
        List.prefix_of_prefix_length_le h (List.prefix_append _ _) (Nat.le_of_not_le hlen)
      refine ⟨bytes, rfl, .inr ⟨f, hpart, ?_⟩⟩
      rintro rfl
      exact hlen (Nat.le_refl _)

theorem messagesOf_arrived {frames : List Frame} {bytes : List UInt8} (h : bytes <+: stream frames) :
    (messagesOf bytes).1 = (arrived bytes.length frames).map fun f => utf16 f.body := by
  obtain ⟨part, hbytes, hpart⟩ := arrived_spec h
  obtain ⟨hbetween, htext⟩ := decode_stream (.inl rfl) (arrived bytes.length frames)
  have hrest : (splitLast (ascii '\n') [ascii '\n']
      (((TextDecoder.new.decode (stream (arrived bytes.length frames))).1.decode part).2.flatMap
        charUnits)).1 = [] := by
    rcases hpart with rfl | ⟨f, hprefix, hne⟩
    · rw [TextDecoder.decode, List.flatMap_nil, splitLast]
    · obtain ⟨more, hmore, htext⟩ := decode_partial hbetween hprefix hne
      rw [split_incomplete hmore htext]
  unfold messagesOf
  conv_lhs => rw [hbytes]
  rw [TextDecoder.decode_append, htext, List.flatMap_append, split_frames, hrest]
  exact List.append_nil _

theorem flatMap_messageEvents (frames : List Frame) :
    (frames.map fun f => utf16 f.body).flatMap messageEvents =
      (frames.filterMap Frame.event?).map eventObject := by
  induction frames with
  | nil => rfl
  | cons f frames ih =>
    rw [List.map_cons, List.flatMap_cons, messageEvents_body, ih, List.filterMap_cons]
    cases f <;> rfl

/-- Whatever the chunks are in which the stream arrives, the handler is called with each event whose
bytes have all arrived, once and in order, and with nothing else. -/
theorem handled_arrived (frames : List Frame) (chunks : List (List UInt8))
    (h : chunks.flatten <+: stream frames) :
    (readLoop chunks).handled =
      ((arrived chunks.flatten.length frames).filterMap Frame.event?).map eventObject := by
  rw [(readLoop_eq chunks).2.2, messagesOf_arrived h, flatMap_messageEvents]

/-- Of an event with a letter outside of ASCII, whose bytes are cut in two, and a heartbeat, the
handler is called with the event when the second chunk is there. -/
theorem handled_arrived_twice :
    let event : SSEEvent := ⟨.memoUpdated, "memos/é", "", .empty, 1⟩
    let bytes := stream (handleSSE [.events event, .ticker])
    (readLoop [bytes.take 57]).handled = [] ∧
      (readLoop [bytes.take 57, bytes.drop 57]).handled = [eventObject event] := by
  intro event bytes
  have hfirst := handled_arrived (handleSSE [.events event, .ticker]) [bytes.take 57] (by
    rw [List.flatten_singleton]
    exact List.take_prefix 57 bytes)
  have hboth := handled_arrived (handleSSE [.events event, .ticker])
    [bytes.take 57, bytes.drop 57] (by simp [bytes])
  have hnone : (arrived [bytes.take 57].flatten.length
      (handleSSE [.events event, .ticker])).filterMap Frame.event? = [] := by decide
  have hone : (arrived [bytes.take 57, bytes.drop 57].flatten.length
      (handleSSE [.events event, .ticker])).filterMap Frame.event? = [event] := by decide
  rw [hfirst, hboth, hnone, hone]
  exact ⟨rfl, rfl⟩

end arrival

end Memoark.Web
