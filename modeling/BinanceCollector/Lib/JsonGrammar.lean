import BinanceCollector.Lib.Json

/-!
# The grammar behind the decoder

A syntax tree keeps numbers and constants as they are written. `Nested d` relates a text to the tree at its head and to
what follows it, where containers nest at most `d` deep; `Spells` is the grammar of whole texts. The hooks play no part
in it: `Tree.build` applies them to a tree from the leaves up.

- `scan_sound`, `loads_sound`: what the decoder returns is what the hooks build from a tree of the text.
- `scan_complete`, `loads_complete`: a text with a tree that the hooks accept is decoded, unless it exceeds a limit.
-/

namespace Json

open Text

/-- A syntax tree. -/
inductive Tree where
  | null
  | bool (b : Bool)
  | integer (literal : Str)
  /-- a number with a fraction or an exponent -/
  | number (literal : Str)
  /-- `NaN`, `Infinity` or `-Infinity` -/
  | constant (name : Str)
  | string (s : Str)
  | array (items : List Tree)
  | object (members : List (Str × Tree))

/-! ## Texts and trees -/

/-- At the head of a text there is this tree, and the last text follows it. -/
abbrev Grammar := Str → Tree → Str → Prop

/-- The words that are values, with their trees. -/
def wordTrees : List (String × Tree) :=
  [("null", .null), ("true", .bool true), ("false", .bool false), ("NaN", .constant (str "NaN")),
    ("Infinity", .constant (str "Infinity")), ("-Infinity", .constant (str "-Infinity"))]

/-- A word, a number or a string. -/
inductive Scalar : Grammar
  | word {w : String} {t : Tree} {s r : Str} : (w, t) ∈ wordTrees → dropWord w s = some r → Scalar s t r
  | integer {s literal r : Str} : scanNumber s = some (literal, [], r) → Scalar s (.integer literal) r
  | number {s int rest r : Str} : scanNumber s = some (int, rest, r) → rest ≠ [] → Scalar s (.number (int ++ rest)) r
  | string {s x r : Str} : scanString s = some (x, r) → Scalar (code '"' :: s) (.string x) r

/-- The members of an object after `{` or `,`, up to `}`. -/
inductive Members (V : Grammar) : Str → List (Str × Tree) → Str → Prop
  | last {s key s₁ s₂ t s₃ r} : scanString s = some (key, s₁) → skipSpace s₁ = code ':' :: s₂ →
      V (skipSpace s₂) t s₃ → skipSpace s₃ = code '}' :: r → Members V (code '"' :: s) [(key, t)] r
  | more {s key s₁ s₂ t s₃ s₄ ms r} : scanString s = some (key, s₁) → skipSpace s₁ = code ':' :: s₂ →
      V (skipSpace s₂) t s₃ → skipSpace s₃ = code ',' :: s₄ → Members V (skipSpace s₄) ms r →
      Members V (code '"' :: s) ((key, t) :: ms) r

/-- The items of an array after `[` or `,`, up to `]`. -/
inductive Items (V : Grammar) : Str → List Tree → Str → Prop
  | last {s t s₁ r} : V s t s₁ → skipSpace s₁ = code ']' :: r → Items V s [t] r
  | more {s t s₁ s₂ ts r} : V s t s₁ → skipSpace s₁ = code ',' :: s₂ → Items V (skipSpace s₂) ts r →
      Items V s (t :: ts) r

/-- A value with these values in its containers. -/
inductive Container (V : Grammar) : Grammar
  | scalar {s t r} : Scalar s t r → Container V s t r
  | emptyObject {s r} : skipSpace s = code '}' :: r → Container V (code '{' :: s) (.object []) r
  | object {s ms r} : Members V (skipSpace s) ms r → Container V (code '{' :: s) (.object ms) r
  | emptyArray {s r} : skipSpace s = code ']' :: r → Container V (code '[' :: s) (.array []) r
  | array {s c s' ts r} : skipSpace s = c :: s' → c ≠ code ']' → Items V (c :: s') ts r →
      Container V (code '[' :: s) (.array ts) r

/-- A value whose containers nest at most this deep. -/
def Nested : ℕ → Grammar
  | 0 => Scalar
  | d + 1 => Container (Nested d)

/-- The text is this tree, with white space around it. -/
def Spells (s : Str) (t : Tree) : Prop :=
  s.head? ≠ some (ofUnit 0xFEFF) ∧ ∃ d r, Nested d (skipSpace s) t r ∧ skipSpace r = []

/-! ## What trees become -/

mutual

/-- The value that hooks build from a tree. -/
def Tree.build {ω : Type*} (h : Hooks ω) : Tree → Except ω Value
  | .null => .ok .null
  | .bool b => .ok (.bool b)
  | .integer literal => .ok (.int (intOfLiteral literal))
  | .number literal => h.float literal
  | .constant name => h.constant name
  | .string s => .ok (.str s)
  | .array items => (buildItems h items).map .array
  | .object members => (buildMembers h members).bind h.object

def buildItems {ω : Type*} (h : Hooks ω) : List Tree → Except ω (List Value)
  | [] => .ok []
  | t :: ts => (t.build h).bind fun v => (buildItems h ts).map (v :: ·)

def buildMembers {ω : Type*} (h : Hooks ω) : List (Str × Tree) → Except ω (List (Str × Value))
  | [] => .ok []
  | (key, t) :: ms => (t.build h).bind fun v => (buildMembers h ms).map ((key, v) :: ·)

end

mutual

/-- The literals of the integers in a tree. -/
def Tree.integers : Tree → List Str
  | .integer literal => [literal]
  | .array items => integersOfItems items
  | .object members => integersOfMembers members
  | _ => []

def integersOfItems : List Tree → List Str
  | [] => []
  | t :: ts => t.integers ++ integersOfItems ts

def integersOfMembers : List (Str × Tree) → List Str
  | [] => []
  | (_, t) :: ms => t.integers ++ integersOfMembers ms

end

/-- How many digits an integer literal has. -/
def digitCount (literal : Str) : ℕ := (literal.filter isDigit).length

/-- Integers have at most this many digits. -/
def Short (n : ℕ) (literals : List Str) : Prop := ∀ literal ∈ literals, digitCount literal ≤ n

theorem short_append {n : ℕ} {ls ms : List Str} : Short n (ls ++ ms) ↔ Short n ls ∧ Short n ms := by
  simp only [Short, List.forall_mem_append]

/-- The text is this tree, with white space around it, and within the limits. -/
def SpellsWithin (lim : Limits) (s : Str) (t : Tree) : Prop :=
  s.head? ≠ some (ofUnit 0xFEFF) ∧ (∃ r, Nested lim.depth (skipSpace s) t r ∧ skipSpace r = []) ∧
    Short lim.digits t.integers

theorem SpellsWithin.spells {lim : Limits} {s : Str} {t : Tree} (h : SpellsWithin lim s t) : Spells s t :=
  ⟨h.1, _, h.2.1⟩

/-! ## Scalars -/

variable {ω : Type*} {h : Hooks ω} {lim : Limits}

theorem words_eq (h : Hooks ω) : words h = wordTrees.map fun p => (p.1, p.2.build h) := rfl

theorem scanWord_sound {s : Str} {result : Scanned ω Value} : ∀ ws : List (String × Tree),
    scanWord (ws.map fun p => (p.1, p.2.build h)) s = some result →
      ∃ w t r, (w, t) ∈ ws ∧ dropWord w s = some r ∧ result = hooked (t.build h) r
  | [], hs => by cases hs
  | (w, t) :: ws, hs => by
    rw [List.map_cons, scanWord] at hs
    split at hs
    · rename_i r hr
      cases hs
      exact ⟨w, t, r, List.mem_cons_self .., hr, rfl⟩
    · obtain ⟨w', t', r, hmem, hr⟩ := scanWord_sound ws hs
      exact ⟨w', t', r, List.mem_cons_of_mem _ hmem, hr⟩

theorem dropWord_eq_some {w : String} {s r : Str} (hw : dropWord w s = some r) : s = str w ++ r := by
  obtain ⟨p, rfl, hp⟩ := List.dropPrefix?_eq_some_iff.1 hw
  rw [beq_iff_eq.1 hp]

/-- A word is found when the words begin differently. -/
theorem scanWord_complete {s r : Str} {w : String} {t : Tree} (hr : dropWord w s = some r) (hw : str w ≠ []) :
    ∀ ws : List (String × Tree), (ws.map fun p => (str p.1).head?).Nodup → (∀ p ∈ ws, str p.1 ≠ []) → (w, t) ∈ ws →
      scanWord (ws.map fun p => (p.1, p.2.build h)) s = some (hooked (t.build h) r)
  | [], _, _, hmem => by cases hmem
  | (w', t') :: ws, hnodup, hne, hmem => by
    rw [List.map_cons, List.nodup_cons] at hnodup
    rw [List.map_cons, scanWord]
    rcases List.mem_cons.1 hmem with heq | hmem
    · cases heq
      rw [hr]
    · cases hr' : dropWord w' s with
      | none => exact scanWord_complete hr hw ws hnodup.2 (fun p hp => hne p (List.mem_cons_of_mem _ hp)) hmem
      | some r' =>
        -- both words are at the head of the text
        have hhead : (str w').head? = (str w).head? := by
          have heq := (dropWord_eq_some hr').symm.trans (dropWord_eq_some hr)
          have hw' := hne (w', t') (List.mem_cons_self ..)
          have hhead' : (str w' ++ r').head? = (str w').head? := List.head?_append_of_ne_nil _ hw'
          rw [← hhead', heq, List.head?_append_of_ne_nil _ hw]
        exact absurd (List.mem_map.2 ⟨(w, t), hmem, hhead.symm⟩) hnodup.1

/-- A number is no word. -/
theorem scanWord_number {s int rest r : Str} (hs : scanNumber s = some (int, rest, r)) :
    scanWord (words h) s = none := by
  cases hw : scanWord (words h) s with
  | none => rfl
  | some result =>
    obtain ⟨w, t, r', hmem, hr, -⟩ := scanWord_sound wordTrees (words_eq h ▸ hw)
    rw [dropWord_eq_some hr] at hs
    simp only [wordTrees, List.mem_cons, Prod.mk.injEq, List.not_mem_nil, or_false] at hmem
    rcases hmem with ⟨rfl, -⟩ | ⟨rfl, -⟩ | ⟨rfl, -⟩ | ⟨rfl, -⟩ | ⟨rfl, -⟩ | ⟨rfl, -⟩ <;> cases hs

theorem scanScalar_sound {s r : Str} {v : Value} (hs : scanScalar h lim s = .ok (v, r)) :
    ∃ t, Scalar s t r ∧ t.build h = .ok v ∧ Short lim.digits t.integers := by
  unfold scanScalar at hs
  split at hs
  · rename_i result hw
    obtain ⟨w, t, r', hmem, hr, rfl⟩ := scanWord_sound wordTrees (words_eq h ▸ hw)
    obtain rfl := hooked_shorter hs
    refine ⟨t, .word hmem hr, hooked_ok hs, ?_⟩
    simp only [wordTrees, List.mem_cons, Prod.mk.injEq, List.not_mem_nil, or_false] at hmem
    rcases hmem with ⟨-, rfl⟩ | ⟨-, rfl⟩ | ⟨-, rfl⟩ | ⟨-, rfl⟩ | ⟨-, rfl⟩ | ⟨-, rfl⟩ <;> exact List.forall_mem_nil _
  · split at hs
    · cases hs
    · rename_i literal r' hn
      split at hs
      · cases hs
      · rename_i hd
        cases hs
        exact ⟨_, .integer hn, rfl, List.forall_mem_singleton.2 (not_lt.1 hd)⟩
    · rename_i int rest r' hne hn
      obtain rfl := hooked_shorter hs
      exact ⟨_, .number hn fun hnil => hne (hnil ▸ rfl), hooked_ok hs, List.forall_mem_nil _⟩

/-! ## What is read is in the grammar -/

/-- What the reader returns is built from a tree. -/
def Sound (h : Hooks ω) (n : ℕ) (V : Grammar) (value : Str → Scanned ω Value) : Prop :=
  ∀ s v r, value s = .ok (v, r) → ∃ t, V s t r ∧ t.build h = .ok v ∧ Short n t.integers

theorem scanMembers_sound {V : Grammar} {value : Str → Scanned ω Value} {n : ℕ} (hv : Sound h n V value) :
    ∀ (k : ℕ) (acc : List (Str × Value)) (s : Str) {members r}, scanMembers value k acc s = .ok (members, r) →
      ∃ ms vs, Members V s ms r ∧ buildMembers h ms = .ok vs ∧ members = acc ++ vs ∧ Short n (integersOfMembers ms)
  | 0, _, _, _, _, hs => by cases hs
  | k + 1, acc, s, members, r, hs => by
    unfold scanMembers at hs
    split at hs
    · cases hs
    rename_i q s
    split at hs
    case isFalse => cases hs
    rename_i hq
    subst hq
    split at hs
    · cases hs
    rename_i key s₁ hkey
    split at hs
    · cases hs
    rename_i c s₂ hs₁
    split at hs
    case isFalse => cases hs
    rename_i hc
    subst hc
    split at hs
    · cases hs
    rename_i v s₃ hval
    obtain ⟨t, ht, hbuild, hshort⟩ := hv _ _ _ hval
    split at hs
    · cases hs
    rename_i c s₄ hs₃
    split at hs
    · rename_i hc
      subst hc
      cases hs
      refine ⟨[(key, t)], [(key, v)], .last hkey hs₁ ht hs₃, ?_, rfl, ?_⟩
      · simp only [buildMembers, hbuild]; rfl
      · simpa [integersOfMembers] using hshort
    · split at hs
      · rename_i hc
        subst hc
        obtain ⟨ms, vs, hms, hvs, rfl, hrest⟩ := scanMembers_sound hv k _ _ hs
        refine ⟨(key, t) :: ms, (key, v) :: vs, .more hkey hs₁ ht hs₃ hms, ?_, by simp, short_append.2 ⟨hshort, hrest⟩⟩
        simp only [buildMembers, hbuild, hvs]
        rfl
      · cases hs

theorem scanItems_sound {V : Grammar} {value : Str → Scanned ω Value} {n : ℕ} (hv : Sound h n V value) :
    ∀ (k : ℕ) (acc : List Value) (s : Str) {items r}, scanItems value k acc s = .ok (items, r) →
      ∃ ts vs, Items V s ts r ∧ buildItems h ts = .ok vs ∧ items = acc ++ vs ∧ Short n (integersOfItems ts)
  | 0, _, _, _, _, hs => by cases hs
  | k + 1, acc, s, items, r, hs => by
    rw [scanItems] at hs
    split at hs
    · cases hs
    rename_i v s₁ hval
    obtain ⟨t, ht, hbuild, hshort⟩ := hv _ _ _ hval
    split at hs
    · cases hs
    rename_i c s₂ hs₁
    split at hs
    · rename_i hc
      subst hc
      cases hs
      refine ⟨[t], [v], .last ht hs₁, ?_, rfl, ?_⟩
      · simp only [buildItems, hbuild]; rfl
      · simpa [integersOfItems] using hshort
    · split at hs
      · rename_i hc
        subst hc
        obtain ⟨ts, vs, hts, hvs, rfl, hrest⟩ := scanItems_sound hv k _ _ hs
        refine ⟨t :: ts, v :: vs, .more ht hs₁ hts, ?_, by simp, short_append.2 ⟨hshort, hrest⟩⟩
        simp only [buildItems, hbuild, hvs]
        rfl
      · cases hs

theorem scanObject_sound {V : Grammar} {value : Str → Scanned ω Value} {n : ℕ} (hv : Sound h n V value) {s r : Str}
    {v : Value} (hs : scanObject h value s = .ok (v, r)) :
    ∃ t, Container V (code '{' :: s) t r ∧ t.build h = .ok v ∧ Short n t.integers := by
  unfold scanObject at hs
  split at hs
  · cases hs
  rename_i c s₁ hs₁
  split at hs
  · rename_i hc
    subst hc
    obtain rfl := hooked_shorter hs
    exact ⟨.object [], .emptyObject hs₁, hooked_ok hs, List.forall_mem_nil _⟩
  · split at hs
    · cases hs
    rename_i members s₂ hm
    obtain rfl := hooked_shorter hs
    obtain ⟨ms, vs, hms, hvs, rfl, hshort⟩ := scanMembers_sound hv _ _ _ hm
    refine ⟨.object ms, .object (hs₁ ▸ hms), ?_, hshort⟩
    simp only [Tree.build, hvs]
    exact hooked_ok hs

theorem scanArray_sound {V : Grammar} {value : Str → Scanned ω Value} {n : ℕ} (hv : Sound h n V value) {s r : Str}
    {v : Value} (hs : scanArray value s = .ok (v, r)) :
    ∃ t, Container V (code '[' :: s) t r ∧ t.build h = .ok v ∧ Short n t.integers := by
  unfold scanArray at hs
  split at hs
  · cases hs
  rename_i c s₁ hs₁
  split at hs
  · rename_i hc
    subst hc
    cases hs
    exact ⟨.array [], .emptyArray hs₁, rfl, List.forall_mem_nil _⟩
  · rename_i hc
    split at hs
    · cases hs
    rename_i items s₂ hi
    cases hs
    obtain ⟨ts, vs, hts, hvs, rfl, hshort⟩ := scanItems_sound hv _ _ _ hi
    refine ⟨.array ts, .array hs₁ hc hts, ?_, hshort⟩
    simp only [Tree.build, hvs]
    rfl

theorem scanToken_sound {V : Grammar} {object array : Str → Scanned ω Value}
    (hscalar : ∀ {s t r}, Scalar s t r → V s t r)
    (hobject : ∀ s v r, object s = .ok (v, r) →
      ∃ t, V (code '{' :: s) t r ∧ t.build h = .ok v ∧ Short lim.digits t.integers)
    (harray : ∀ s v r, array s = .ok (v, r) →
      ∃ t, V (code '[' :: s) t r ∧ t.build h = .ok v ∧ Short lim.digits t.integers) :
    Sound h lim.digits V (scanToken h lim object array) := by
  intro s v r hs
  unfold scanToken at hs
  split at hs
  · cases hs
  split at hs
  · rename_i hc
    subst hc
    split at hs
    · cases hs
    · rename_i hstr
      cases hs
      exact ⟨_, hscalar (.string hstr), rfl, List.forall_mem_nil _⟩
  · split at hs
    · rename_i hc
      subst hc
      exact hobject _ _ _ hs
    · split at hs
      · rename_i hc
        subst hc
        exact harray _ _ _ hs
      · obtain ⟨t, ht, hbuild⟩ := scanScalar_sound hs
        exact ⟨t, hscalar ht, hbuild⟩

/-- **What is read is in the grammar**, and no deeper or longer than the limits allow. -/
theorem scan_sound (h : Hooks ω) (lim : Limits) : ∀ d, Sound h lim.digits (Nested d) (scanOnce h lim d)
  | 0 => scanToken_sound id (fun _ _ _ hs => by cases hs) fun _ _ _ hs => by cases hs
  | d + 1 => scanToken_sound .scalar (fun _ _ _ => scanObject_sound (scan_sound h lim d)) fun _ _ _ =>
      scanArray_sound (scan_sound h lim d)

theorem loads_sound {s : Str} {v : Value} (hs : loads h lim s = .ok v) :
    ∃ t, SpellsWithin lim s t ∧ t.build h = .ok v := by
  unfold loads at hs
  split at hs
  · cases hs
  rename_i hbom
  split at hs
  · cases hs
  rename_i v' r hv
  split at hs
  · rename_i hr
    cases hs
    obtain ⟨t, ht, hbuild, hshort⟩ := scan_sound h lim _ _ _ _ hv
    exact ⟨t, ⟨hbom, ⟨r, ht, hr⟩, hshort⟩, hbuild⟩
  · cases hs

/-! ## What is in the grammar is read -/

/-- The result is this one, unless a limit is exceeded. -/
inductive Within {α : Type*} (deep long : Prop) (x : α) (r : Str) : Scanned ω α → Prop
  | ok : Within deep long x r (.ok (x, r))
  | tooDeep : deep → Within deep long x r (.error .tooDeep)
  | tooLong : long → Within deep long x r (.error .tooLong)

/-- The reader reads what is built from a tree, unless a limit is exceeded. -/
def Complete (h : Hooks ω) (n : ℕ) (V : Grammar) (deep : Prop) (value : Str → Scanned ω Value) : Prop :=
  ∀ s t r v, V s t r → t.build h = .ok v → Within deep (¬Short n t.integers) v r (value s)

theorem buildMembers_cons {key : Str} {t : Tree} {ms : List (Str × Tree)} {vs : List (Str × Value)}
    (hb : buildMembers h ((key, t) :: ms) = .ok vs) :
    ∃ v vs', t.build h = .ok v ∧ buildMembers h ms = .ok vs' ∧ vs = (key, v) :: vs' := by
  rw [buildMembers] at hb
  cases hv : t.build h with
  | error e => rw [hv] at hb; cases hb
  | ok v =>
    cases hvs : buildMembers h ms with
    | error e => rw [hv, hvs] at hb; cases hb
    | ok vs' =>
      rw [hv, hvs] at hb
      cases hb
      exact ⟨v, vs', rfl, rfl, rfl⟩

theorem buildItems_cons {t : Tree} {ts : List Tree} {vs : List Value} (hb : buildItems h (t :: ts) = .ok vs) :
    ∃ v vs', t.build h = .ok v ∧ buildItems h ts = .ok vs' ∧ vs = v :: vs' := by
  rw [buildItems] at hb
  cases hv : t.build h with
  | error e => rw [hv] at hb; cases hb
  | ok v =>
    cases hvs : buildItems h ts with
    | error e => rw [hv, hvs] at hb; cases hb
    | ok vs' =>
      rw [hv, hvs] at hb
      cases hb
      exact ⟨v, vs', rfl, rfl, rfl⟩

theorem not_short_left {n : ℕ} {ls ms : List Str} (hl : ¬Short n ls) : ¬Short n (ls ++ ms) :=
  fun hlm => hl (short_append.1 hlm).1

theorem not_short_right {n : ℕ} {ls ms : List Str} (hm : ¬Short n ms) : ¬Short n (ls ++ ms) :=
  fun hlm => hm (short_append.1 hlm).2

theorem scanMembers_complete {V : Grammar} {value : Str → Scanned ω Value} {n : ℕ} {deep : Prop}
    (hv : Complete h n V deep value) (hreads : Reads value) {s r : Str} {ms : List (Str × Tree)}
    (hms : Members V s ms r) : ∀ (k : ℕ) (acc vs : List (Str × Value)), s.length < k → buildMembers h ms = .ok vs →
      Within deep (¬Short n (integersOfMembers ms)) (acc ++ vs) r (scanMembers value k acc s) := by
  induction hms with
  | @last s key s₁ s₂ t s₃ r hkey hs₁ ht hs₃ =>
    intro k acc vs hk hbuild
    obtain ⟨k, rfl⟩ := Nat.exists_eq_add_one_of_ne_zero (Nat.ne_zero_of_lt hk)
    obtain ⟨v, _, hb, hnil, rfl⟩ := buildMembers_cons hbuild
    cases hnil
    simp only [scanMembers, hkey, hs₁, if_true]
    have hval := hv _ _ _ _ ht hb
    revert hval
    generalize value (skipSpace s₂) = result
    rintro (_ | hd | hl)
    · simp only [hs₃, if_true]
      exact .ok
    · exact .tooDeep hd
    · exact .tooLong (not_short_left hl)
  | @more s key s₁ s₂ t s₃ s₄ ms r hkey hs₁ ht hs₃ hms ih =>
    intro k acc vs hk hbuild
    obtain ⟨k, rfl⟩ := Nat.exists_eq_add_one_of_ne_zero (Nat.ne_zero_of_lt hk)
    obtain ⟨v, vs', hb, hbuild', rfl⟩ := buildMembers_cons hbuild
    simp only [scanMembers, hkey, hs₁, if_true]
    have hval := hv _ _ _ _ ht hb
    revert hval
    generalize hresult : value (skipSpace s₂) = result
    rintro (_ | hd | hl)
    · have hshort : (skipSpace s₄).length < k := by
        have h₁ := scanString_shorter hkey
        have h₂ := length_skipSpace s₁
        have h₃ := length_skipSpace s₂
        have h₄ := hreads.shorter hresult
        have h₅ := length_skipSpace s₃
        have h₆ := length_skipSpace s₄
        rw [hs₁, List.length_cons] at h₂
        rw [hs₃, List.length_cons] at h₅
        rw [List.length_cons] at hk
        omega
      have hrest := ih k (acc ++ [(key, v)]) vs' hshort hbuild'
      rw [List.append_assoc, List.singleton_append] at hrest
      simp only [hs₃, if_true, if_neg (show code ',' ≠ code '}' by decide)]
      revert hrest
      generalize scanMembers value k (acc ++ [(key, v)]) (skipSpace s₄) = result
      rintro (_ | hd | hl)
      · exact .ok
      · exact .tooDeep hd
      · exact .tooLong (not_short_right hl)
    · exact .tooDeep hd
    · exact .tooLong (not_short_left hl)

theorem scanItems_complete {V : Grammar} {value : Str → Scanned ω Value} {n : ℕ} {deep : Prop}
    (hv : Complete h n V deep value) (hreads : Reads value) {s r : Str} {ts : List Tree} (hts : Items V s ts r) :
    ∀ (k : ℕ) (acc vs : List Value), s.length < k → buildItems h ts = .ok vs →
      Within deep (¬Short n (integersOfItems ts)) (acc ++ vs) r (scanItems value k acc s) := by
  induction hts with
  | @last s t s₁ r ht hs₁ =>
    intro k acc vs hk hbuild
    obtain ⟨k, rfl⟩ := Nat.exists_eq_add_one_of_ne_zero (Nat.ne_zero_of_lt hk)
    obtain ⟨v, _, hb, hnil, rfl⟩ := buildItems_cons hbuild
    cases hnil
    rw [scanItems]
    have hval := hv _ _ _ _ ht hb
    revert hval
    generalize value s = result
    rintro (_ | hd | hl)
    · simp only [hs₁, if_true]
      exact .ok
    · exact .tooDeep hd
    · exact .tooLong (not_short_left hl)
  | @more s t s₁ s₂ ts r ht hs₁ hts ih =>
    intro k acc vs hk hbuild
    obtain ⟨k, rfl⟩ := Nat.exists_eq_add_one_of_ne_zero (Nat.ne_zero_of_lt hk)
    obtain ⟨v, vs', hb, hbuild', rfl⟩ := buildItems_cons hbuild
    rw [scanItems]
    have hval := hv _ _ _ _ ht hb
    revert hval
    generalize hresult : value s = result
    rintro (_ | hd | hl)
    · have hshort : (skipSpace s₂).length < k := by
        have h₁ := hreads.shorter hresult
        have h₂ := length_skipSpace s₁
        have h₃ := length_skipSpace s₂
        rw [hs₁, List.length_cons] at h₂
        omega
      have hrest := ih k (acc ++ [v]) vs' hshort hbuild'
      rw [List.append_assoc, List.singleton_append] at hrest
      simp only [hs₁, if_true, if_neg (show code ',' ≠ code ']' by decide)]
      revert hrest
      generalize scanItems value k (acc ++ [v]) (skipSpace s₂) = result
      rintro (_ | hd | hl)
      · exact .ok
      · exact .tooDeep hd
      · exact .tooLong (not_short_right hl)
    · exact .tooDeep hd
    · exact .tooLong (not_short_left hl)

theorem Within.mono {α : Type*} {deep deep' long : Prop} {x : α} {r : Str} {result : Scanned ω α} (hd : deep → deep')
    (hw : Within deep long x r result) : Within deep' long x r result := by
  cases hw with
  | ok => exact .ok
  | tooDeep h => exact .tooDeep (hd h)
  | tooLong h => exact .tooLong h

theorem Members.head {V : Grammar} {s r : Str} {ms : List (Str × Tree)} (hms : Members V s ms r) :
    ∃ s', s = code '"' :: s' := by
  cases hms with
  | last => exact ⟨_, rfl⟩
  | more => exact ⟨_, rfl⟩

theorem scanObject_complete {V : Grammar} {value : Str → Scanned ω Value} {n : ℕ} {deep : Prop}
    (hv : Complete h n V deep value) (hreads : Reads value) {s r : Str} {ms : List (Str × Tree)} {v : Value}
    (hms : Members V (skipSpace s) ms r) (hbuild : (Tree.object ms).build h = .ok v) :
    Within deep (¬Short n (integersOfMembers ms)) v r (scanObject h value s) := by
  obtain ⟨vs, hvs, hobject⟩ : ∃ vs, buildMembers h ms = .ok vs ∧ h.object vs = .ok v := by
    rw [Tree.build] at hbuild
    cases hvs : buildMembers h ms with
    | error e => rw [hvs] at hbuild; cases hbuild
    | ok vs => rw [hvs] at hbuild; exact ⟨vs, rfl, hbuild⟩
  obtain ⟨s', hs'⟩ := hms.head
  rw [hs'] at hms
  rw [scanObject, hs']
  have hresult := scanMembers_complete hv hreads hms (s'.length + 2) [] vs (by simp) hvs
  simp only [if_neg (show code '"' ≠ code '}' by decide)]
  revert hresult
  generalize scanMembers value (s'.length + 2) [] (code '"' :: s') = result
  rintro (_ | hd | hl)
  · simp only [List.nil_append, hobject]
    exact .ok
  · exact .tooDeep hd
  · exact .tooLong hl

theorem scanArray_complete {V : Grammar} {value : Str → Scanned ω Value} {n : ℕ} {deep : Prop}
    (hv : Complete h n V deep value) (hreads : Reads value) {s r s' : Str} {c : CodePoint} {ts : List Tree} {v : Value}
    (hs : skipSpace s = c :: s') (hc : c ≠ code ']') (hts : Items V (c :: s') ts r)
    (hbuild : (Tree.array ts).build h = .ok v) :
    Within deep (¬Short n (integersOfItems ts)) v r (scanArray value s) := by
  obtain ⟨vs, hvs, rfl⟩ : ∃ vs, buildItems h ts = .ok vs ∧ v = .array vs := by
    rw [Tree.build] at hbuild
    cases hvs : buildItems h ts with
    | error e => rw [hvs] at hbuild; cases hbuild
    | ok vs => rw [hvs] at hbuild; cases hbuild; exact ⟨vs, rfl, rfl⟩
  rw [scanArray, hs]
  have hresult := scanItems_complete hv hreads hts (s'.length + 2) [] vs (by simp) hvs
  simp only [if_neg hc]
  revert hresult
  generalize scanItems value (s'.length + 2) [] (c :: s') = result
  rintro (_ | hd | hl)
  · exact .ok
  · exact .tooDeep hd
  · exact .tooLong hl

/-- A word, a number or a string is read. -/
theorem scanToken_scalar {object array : Str → Scanned ω Value} {deep : Prop} :
    Complete h lim.digits Scalar deep (scanToken h lim object array) := by
  intro s t r v ht hb
  have hscalar : ∀ {c s}, c ≠ code '"' → c ≠ code '{' → c ≠ code '[' →
      scanToken h lim object array (c :: s) = scanScalar h lim (c :: s) := fun hq ho ha => by
    simp only [scanToken, if_neg hq, if_neg ho, if_neg ha]
  -- a number does not begin like a string or a container
  have hnumber : ∀ {int rest r}, scanNumber s = some (int, rest, r) →
      scanToken h lim object array s = scanScalar h lim s := by
    intro int rest r hn
    cases s with
    | nil => cases hn
    | cons c s => exact hscalar (by rintro rfl; cases hn) (by rintro rfl; cases hn) (by rintro rfl; cases hn)
  cases ht with
  | @word w _ _ _ hmem hr =>
    have hword : scanScalar h lim s = hooked (t.build h) r := by
      rw [scanScalar, words_eq, scanWord_complete hr (fun hw => ?_) wordTrees (by decide) (by decide) hmem]
      simp only [wordTrees, List.mem_cons, Prod.mk.injEq, List.not_mem_nil, or_false] at hmem
      rcases hmem with ⟨rfl, -⟩ | ⟨rfl, -⟩ | ⟨rfl, -⟩ | ⟨rfl, -⟩ | ⟨rfl, -⟩ | ⟨rfl, -⟩ <;> cases hw
    have htoken : scanToken h lim object array s = scanScalar h lim s := by
      rw [dropWord_eq_some hr]
      simp only [wordTrees, List.mem_cons, Prod.mk.injEq, List.not_mem_nil, or_false] at hmem
      rcases hmem with ⟨rfl, -⟩ | ⟨rfl, -⟩ | ⟨rfl, -⟩ | ⟨rfl, -⟩ | ⟨rfl, -⟩ | ⟨rfl, -⟩ <;>
        exact hscalar (by decide) (by decide) (by decide)
    rw [htoken, hword, hb]
    exact .ok
  | integer hn =>
    rw [hnumber hn, scanScalar, scanWord_number hn, hn]
    cases hb
    simp only
    split
    · rename_i hd
      exact .tooLong fun hs => absurd (hs _ (List.mem_singleton_self _)) (not_le.2 hd)
    · exact .ok
  | @number _ int rest _ hn hne =>
    rw [hnumber hn, scanScalar, scanWord_number hn, hn]
    cases rest with
    | nil => exact absurd rfl hne
    | cons c rest =>
      rw [Tree.build] at hb
      simp only [hb]
      exact .ok
  | string hs =>
    cases hb
    simp only [scanToken, if_true, hs]
    exact .ok

theorem scanToken_brace (object array : Str → Scanned ω Value) (s : Str) :
    scanToken h lim object array (code '{' :: s) = object s := by
  simp only [scanToken, if_neg (show code '{' ≠ code '"' by decide), if_true]

theorem scanToken_bracket (object array : Str → Scanned ω Value) (s : Str) :
    scanToken h lim object array (code '[' :: s) = array s := by
  simp only [scanToken, if_neg (show code '[' ≠ code '"' by decide), if_neg (show code '[' ≠ code '{' by decide),
    if_true]

/-- **What is in the grammar is read**, where the hooks accept it and the limits allow it. -/
theorem scan_complete (h : Hooks ω) (lim : Limits) :
    ∀ d' d, Complete h lim.digits (Nested d') (d < d') (scanOnce h lim d)
  | 0, 0 => scanToken_scalar
  | 0, _ + 1 => scanToken_scalar
  | d' + 1, 0 => fun s t r v ht hb => by
    have hdeep : 0 < d' + 1 := Nat.succ_pos d'
    rw [scanOnce]
    cases ht with
    | scalar hs => exact scanToken_scalar _ _ _ _ hs hb
    | emptyObject | object => rw [scanToken_brace]; exact .tooDeep hdeep
    | emptyArray | array => rw [scanToken_bracket]; exact .tooDeep hdeep
  | d' + 1, d + 1 => fun s t r v ht hb => by
    have ih := scan_complete h lim d' d
    have hreads := scan_shorter h lim d
    rw [scanOnce]
    cases ht with
    | scalar hs => exact scanToken_scalar _ _ _ _ hs hb
    | emptyObject hs =>
      rw [scanToken_brace, scanObject, hs]
      simp only [if_true, show h.object [] = .ok v from hb]
      exact .ok
    | object hms =>
      rw [scanToken_brace]
      exact (scanObject_complete ih hreads hms hb).mono Nat.succ_lt_succ
    | emptyArray hs =>
      cases hb
      rw [scanToken_bracket, scanArray, hs]
      simp only [if_true]
      exact .ok
    | array hs hc hts =>
      rw [scanToken_bracket]
      exact (scanArray_complete ih hreads hs hc hts hb).mono Nat.succ_lt_succ

/-- **A text in the grammar is decoded**, where the hooks accept it, unless it exceeds a limit. -/
theorem loads_complete {s : Str} {t : Tree} {v : Value} (hs : Spells s t) (hb : t.build h = .ok v) :
    loads h lim s = .ok v ∨ loads h lim s = .error .tooDeep ∨ loads h lim s = .error .tooLong := by
  obtain ⟨hbom, d, r, ht, hr⟩ := hs
  rw [loads, if_neg hbom]
  have hresult := scan_complete h lim d lim.depth _ _ _ _ ht hb
  revert hresult
  generalize scanOnce h lim lim.depth (skipSpace s) = result
  rintro (_ | hd | hl)
  · exact .inl (if_pos hr)
  · exact .inr (.inl rfl)
  · exact .inr (.inr rfl)

theorem loads_of_nested {s r : Str} {t : Tree} {v : Value} {d : ℕ} (hbom : s.head? ≠ some (ofUnit 0xFEFF))
    (ht : Nested d (skipSpace s) t r) (hr : skipSpace r = []) (hd : d ≤ lim.depth) (hshort : Short lim.digits t.integers)
    (hb : t.build h = .ok v) : loads h lim s = .ok v := by
  rw [loads, if_neg hbom]
  have hresult := scan_complete h lim d lim.depth _ _ _ _ ht hb
  revert hresult
  generalize scanOnce h lim lim.depth (skipSpace s) = result
  rintro (_ | hdeep | hlong)
  · exact if_pos hr
  · exact absurd hdeep (Nat.not_lt.2 hd)
  · exact absurd hshort hlong

/-- A text in the grammar within the limits is decoded, where the hooks accept it. -/
theorem loads_within {s : Str} {t : Tree} {v : Value} (hs : SpellsWithin lim s t) (hb : t.build h = .ok v) :
    loads h lim s = .ok v := by
  obtain ⟨hbom, ⟨r, ht, hr⟩, hshort⟩ := hs
  exact loads_of_nested hbom ht hr (Nat.le_refl _) hshort hb

theorem exists_short (literals : List Str) : ∃ n, Short n literals := by
  induction literals with
  | nil => exact ⟨0, List.forall_mem_nil _⟩
  | cons literal literals ih =>
    obtain ⟨n, hn⟩ := ih
    refine ⟨max (digitCount literal) n, List.forall_mem_cons.2 ⟨Nat.le_max_left .., fun other hmem => ?_⟩⟩
    exact (hn other hmem).trans (Nat.le_max_right ..)

/-- **There are limits that a text in the grammar keeps to**, however it is read. -/
theorem exists_loads {s : Str} {t t' : Tree} {v v' : Value} (hs : Spells s t) (hs' : Spells s t')
    (hb : t.build h = .ok v) (hb' : t'.build h = .ok v') : ∃ lim, loads h lim s = .ok v ∧ loads h lim s = .ok v' := by
  obtain ⟨hbom, d, r, ht, hr⟩ := hs
  obtain ⟨-, d', r', ht', hr'⟩ := hs'
  obtain ⟨n, hn⟩ := exists_short (t.integers ++ t'.integers)
  have hshort := short_append.1 hn
  exact ⟨⟨max d d', n⟩, loads_of_nested hbom ht hr (Nat.le_max_left ..) hshort.1 hb,
    loads_of_nested hbom ht' hr' (Nat.le_max_right ..) hshort.2 hb'⟩

end Json
