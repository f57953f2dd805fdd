import BinanceCollector.Collector.FieldMaps
import BinanceCollector.Collector.Acceptance
import BinanceCollector.Lib.Bson
import BinanceCollector.Lib.JsonRecode

/-!
# Events as lines

`outputs/stdout.py`: an event is written as one line of JSON. The characters that the encoding of the stream has and the
text of a float are parameters; a failing file descriptor is left out.

- `Recoded`, `normalized_recoded`: the events of `normalize_message` are encoded, and are what the decoder makes of that.
- **`writeSync_normalized`**: such an event is written as one line, and a reader of the line has the event again.
- `splitOn_lines`: what has been written is split at the line feeds.
-/

namespace BinanceCollector

open Text Json

/-! ## Writing -/

/-- A `TextIO`: the characters of its encoding, and what has been written. -/
structure TextIO where
  encodes : CodePoint → Bool
  written : Str := []

/-- What `_write_sync` raises. -/
inductive StdoutError where
  /-- `ValueError` or `RecursionError` of `json.dumps` -/
  | dumps (e : DumpError)
  /-- `UnicodeEncodeError` of `write` -/
  | unicodeEncode
  deriving DecidableEq

/-- `type(error).__name__`. -/
def StdoutError.typeName : StdoutError → Str
  | .dumps .tooDeep => str "RecursionError"
  | .dumps .tooLong | .dumps .float => str "ValueError"
  | .unicodeEncode => str "UnicodeEncodeError"

/-- `stream.write(text)`, which encodes the whole text first. -/
def TextIO.write (stream : TextIO) (text : Str) : Except StdoutError TextIO :=
  if text.all stream.encodes then .ok { stream with written := stream.written ++ text } else .error .unicodeEncode

/-- The `json.dumps` of `_write_sync`, with `float.__repr__` for the numbers that `allow_nan=False` lets pass. -/
def stdoutStyle (repr : Str → Option Str) : Style := ⟨false, repr⟩

namespace StdoutOutput

/-- `_write_sync`. -/
def writeSync (repr : Str → Option Str) (lim : Limits) (stream : TextIO) (event : Event) : Except StdoutError TextIO :=
  match dumps (stdoutStyle repr) lim (.object event) with
  | .error e => .error (.dumps e)
  | .ok serialized => stream.write (serialized ++ [code '\n'])

end StdoutOutput

/-! ## Events that are read back -/

theorem strictHooks_strict : strictHooks.Strict where
  object h := (pairsWithoutDuplicates_eq_ok.1 h).symm
  float h := by cases h
  constant h := by cases h

theorem strictHooks_keeps : strictHooks.Keeps := fun _ hn => pairsWithoutDuplicates_eq_ok.2 ⟨hn, rfl⟩

/-- An event that is encoded, and that strict decoding of the text gives back. -/
structure Recoded (repr : Str → Option Str) (lim : Limits) (event : Event) : Prop where
  exact : Exact (.object event)
  fits : Fits (stdoutStyle repr) lim.digits lim.depth (.object event)
  renamed : renameFields event fieldNames = .ok event

theorem exact_rename {f : Str → Str} {payload : Event} (he : Exact (.object payload))
    (hn : ((Dict.keys payload).map f).Nodup) : Exact (.object (Dict.rename f payload)) := by
  refine .object (by rwa [Dict.keys_rename]) fun p hp => ?_
  obtain ⟨q, hq, rfl⟩ := List.mem_map.1 hp
  exact (exact_object.1 he).2 q hq

theorem fits_rename {style : Style} {digits d : ℕ} {f : Str → Str} {payload : Event}
    (h : Fits style digits d (.object payload)) : Fits style digits d (.object (Dict.rename f payload)) := by
  cases d with
  | zero => obtain ⟨s, hs⟩ := h; cases hs
  | succ d =>
    rw [fits_object] at h ⊢
    intro p hp
    obtain ⟨q, hq, rfl⟩ := List.mem_map.1 hp
    exact h q hq

variable {repr : Str → Option Str} {lim w : Limits}

/-- Texts under names that the field map does not speak of. -/
theorem recoded_texts (names : List Str) {event : Event} (hkeys : Dict.keys event = names) (hn : names.Nodup)
    (hfree : ∀ name ∈ names, name ∉ Dict.keys fieldNames) (htexts : ∀ p ∈ event, ∃ s, p.2 = .str s)
    (hdepth : 0 < lim.depth) : Recoded repr lim event where
  exact := .object (hkeys ▸ hn) fun p hp => by
    obtain ⟨s, hs⟩ := htexts p hp
    exact hs ▸ .str s
  fits := by
    obtain ⟨d, hd⟩ := Nat.exists_eq_succ_of_ne_zero hdepth.ne'
    rw [hd]
    refine fits_object.2 fun p hp => ?_
    obtain ⟨s, hs⟩ := htexts p hp
    exact hs ▸ fits_str s
  renamed := by
    have hsame : ∀ key ∈ Dict.keys event, fieldName fieldNames key = key := fun key hkey =>
      fieldName_eq_self (hfree key (hkeys ▸ hkey))
    refine renameFields_eq_ok.2 ⟨(Dict.rename_eq_self hsame).symm, ?_⟩
    rwa [List.map_congr_left hsame, List.map_id', hkeys]

theorem recoded_rawTextMessage (message warning : Str) (hdepth : 0 < lim.depth) :
    Recoded repr lim (rawTextMessage message warning).event :=
  recoded_texts [str "raw_message"] rfl (by decide) (by decide) (by simp [rawTextMessage]) hdepth

theorem recoded_rawBinaryMessage (message : List (Fin 256)) (hdepth : 0 < lim.depth) :
    Recoded repr lim (rawBinaryMessage message).event :=
  recoded_texts [str "raw_message", str "raw_encoding"] rfl (by decide) (by decide)
    (by simp [rawBinaryMessage]) hdepth

/-- A decoded object under its new names. -/
theorem recoded_renamed {message : Str} {payload event : Event} (hdepth : lim.depth ≤ w.depth)
    (hdigits : lim.digits ≤ w.digits) (hl : loads strictHooks lim message = .ok (.object payload))
    (hr : renameFields payload fieldNames = .ok event) : Recoded repr w event := by
  have hagain := fieldMap_fieldNames.rename_again hr
  obtain ⟨rfl, hn⟩ := renameFields_eq_ok.1 hr
  exact ⟨exact_rename (loads_exact strictHooks_strict hl) hn,
    fits_rename (Fits.mono (loads_fits strictHooks_strict hl) hdigits hdepth), hagain⟩

/-- **The events of `normalize_message` are read back.** -/
theorem normalized_recoded {message : WireMessage} {n : NormalizedMessage} (hdepth : lim.depth ≤ w.depth)
    (hdigits : lim.digits ≤ w.digits) (hpos : 0 < w.depth) (hn : normalizeMessage lim message = .ok n) :
    Recoded repr w n.event := by
  cases message with
  | binary bytes => cases hn; exact recoded_rawBinaryMessage bytes hpos
  | text text =>
    cases hl : loads strictHooks lim text with
    | error e =>
      cases e with
      | refused refusal =>
        cases refusal <;> simp only [normalizeMessage, hl] at hn <;> cases hn <;> exact recoded_rawTextMessage _ _ hpos
      | malformed => simp only [normalizeMessage, hl] at hn; cases hn; exact recoded_rawTextMessage _ _ hpos
      | tooLong | tooDeep | exhausted => simp only [normalizeMessage, hl] at hn; cases hn
    | ok v =>
      cases v with
      | object payload =>
        rw [normalizeMessage_object hl] at hn
        cases hr : renameFields payload fieldNames with
        | error name => rw [hr] at hn; cases hn; exact recoded_rawTextMessage _ _ hpos
        | ok event => rw [hr] at hn; cases hn; exact recoded_renamed hdepth hdigits hl hr
      | _ => simp only [normalizeMessage, hl] at hn; cases hn; exact recoded_rawTextMessage _ _ hpos

/-! ## Lines -/

/-- The encoding has the characters of ASCII. -/
def TextIO.HasAscii (stream : TextIO) : Prop := ∀ c : CodePoint, c.val < 0x80 → stream.encodes c = true

/-- The keys and the texts of an event have characters of the encoding only. -/
def TextIO.Encodes (stream : TextIO) (event : Event) : Prop :=
  Json.Texts (fun t => ∀ c ∈ t, stream.encodes c = true) (.object event)

/-- One line for an event: a reader of it has the event again. -/
structure LineOf (repr : Str → Option Str) (w : Limits) (event : Event) (line : Str) : Prop where
  dumped : dumps (stdoutStyle repr) w (.object event) = .ok line
  visible : ∀ c ∈ line, 0x20 ≤ c.val
  read : ∀ r : Limits, w.depth ≤ r.depth → w.digits ≤ r.digits → loads strictHooks r line = .ok (.object event)

theorem LineOf.no_lineFeed {event : Event} {line : Str} (h : LineOf repr w event line) : code '\n' ∉ line := fun hmem =>
  absurd (h.visible _ hmem) (by decide)

theorem lineOf_dumps {event : Event} (he : Exact (.object event)) {line : Str}
    (hline : dumps (stdoutStyle repr) w (.object event) = .ok line) : LineOf repr w event line where
  dumped := hline
  visible c hc := (dumps_visible he (by rintro ⟨⟩) hline c hc).1
  read _ hd hn := loads_dumps strictHooks_keeps he (by rintro ⟨⟩) hd hn hline

/-- The line is normalised to the event. -/
theorem LineOf.normalized {event : Event} {line : Str} (h : LineOf repr w event line)
    (hrenamed : renameFields event fieldNames = .ok event) {r : Limits} (hd : w.depth ≤ r.depth)
    (hn : w.digits ≤ r.digits) : normalizeMessage r (.text line) = .ok ⟨event, none⟩ := by
  rw [normalizeMessage_object (h.read r hd hn), hrenamed]

/-- The line has the characters of the encoding exactly if the event has. -/
theorem Recoded.encodes_iff {event : Event} (h : Recoded repr w event) {line : Str} (hl : LineOf repr w event line)
    {stream : TextIO} (hascii : stream.HasAscii) :
    (line ++ [code '\n']).all stream.encodes = true ↔ stream.Encodes event := by
  have hfeed : stream.encodes (code '\n') = true := hascii _ (by decide)
  rw [List.all_append, Bool.and_eq_true, List.all_eq_true, TextIO.Encodes,
    ← forall_mem_dump (P := fun c => stream.encodes c = true) hascii rfl (.object event) h.exact hl.dumped]
  simp [hfeed]

/-- **One line for each event of `normalize_message`.** The line has no line feed and is normalised to the event without
a warning; it is written unless the event has a character that the encoding does not have, and then nothing is. -/
theorem writeSync_normalized {message : WireMessage} {n : NormalizedMessage} (hdepth : lim.depth ≤ w.depth)
    (hdigits : lim.digits ≤ w.digits) (hpos : 0 < w.depth) (hn : normalizeMessage lim message = .ok n)
    (repr : Str → Option Str) {stream : TextIO} (hascii : stream.HasAscii) :
    ∃ line, code '\n' ∉ line ∧
      (∀ r : Limits, w.depth ≤ r.depth → w.digits ≤ r.digits →
        normalizeMessage r (.text line) = .ok ⟨n.event, none⟩) ∧
      (stream.Encodes n.event → StdoutOutput.writeSync repr w stream n.event =
        .ok { stream with written := stream.written ++ (line ++ [code '\n']) }) ∧
      (¬stream.Encodes n.event → StdoutOutput.writeSync repr w stream n.event = .error .unicodeEncode) := by
  have hr : Recoded repr w n.event := normalized_recoded hdepth hdigits hpos hn
  obtain ⟨line, hdumps⟩ := hr.fits
  have hline := lineOf_dumps hr.exact hdumps
  have hwrite : StdoutOutput.writeSync repr w stream n.event = stream.write (line ++ [code '\n']) := by
    rw [StdoutOutput.writeSync, hline.dumped]
  refine ⟨line, hline.no_lineFeed, fun r hd hd' => hline.normalized hr.renamed hd hd', fun henc => ?_, fun henc => ?_⟩
  · rw [hwrite, TextIO.write, if_pos ((hr.encodes_iff hline hascii).2 henc)]
  · rw [hwrite, TextIO.write, if_neg fun hall => henc ((hr.encodes_iff hline hascii).1 hall)]

/-- A stream with UTF-8. -/
def utf8Stream : TextIO := { encodes := fun c => !isSurrogate c }

theorem utf8Stream_hasAscii : utf8Stream.HasAscii := fun c hc => by
  simp only [utf8Stream, isSurrogate, Bool.not_eq_true', decide_eq_false_iff_not]
  omega

/-- A symbol with a line feed in it is written on one line. -/
theorem writeSync_normalized_lineFeed :
    ∃ line, code '\n' ∉ line ∧ normalizeMessage ⟨10, 10⟩ (.text line) = .ok ⟨[(str "symbol", .str [code '\n'])], none⟩ ∧
      StdoutOutput.writeSync (fun _ => none) ⟨10, 10⟩ utf8Stream [(str "symbol", .str [code '\n'])] =
        .ok { utf8Stream with written := line ++ [code '\n'] } := by
  have hn : normalizeMessage ⟨10, 10⟩ (.text (str "\x7b\"s\":\"\\n\"\x7d")) =
      .ok ⟨[(str "symbol", .str [code '\n'])], none⟩ := by decide +kernel
  have hencodes : utf8Stream.Encodes [(str "symbol", .str [code '\n'])] := by
    refine .object (List.forall_mem_singleton.2 ?_) (List.forall_mem_singleton.2 (.str ?_)) <;>
      exact fun c hc => List.all_eq_true.1 (by decide) c hc
  obtain ⟨line, hfeed, hread, hwrite, -⟩ :=
    writeSync_normalized (Nat.le_refl _) (Nat.le_refl _) (by decide) hn (fun _ => none) utf8Stream_hasAscii
  exact ⟨line, hfeed, hread _ (Nat.le_refl _) (Nat.le_refl _), hwrite hencodes⟩

/-! ## The text of a stream -/

/-- Lines with their line feeds. -/
def lines (ls : List Str) : Str := ls.flatMap fun line => line ++ [code '\n']

theorem lines_append (ls ms : List Str) : lines (ls ++ ms) = lines ls ++ lines ms := List.flatMap_append

/-- **Splitting at the line feeds** gives the lines. -/
theorem splitOn_lines {ls : List Str} (h : ∀ line ∈ ls, code '\n' ∉ line) :
    (lines ls).splitOn (code '\n') = ls ++ [[]] := by
  induction ls with
  | nil => rfl
  | cons line ls ih =>
    rw [List.forall_mem_cons] at h
    have hcons : lines (line :: ls) = line ++ code '\n' :: lines ls := by simp [lines]
    rw [hcons, List.splitOn_append_cons_self_of_not_mem h.1, ih h.2]
    rfl

end BinanceCollector
