import Mathlib.Data.List.Induction
import Mathlib.Data.List.Nodup
import Mathlib.Tactic.Common

/-!
# Dictionaries in insertion order

A dictionary is the list of its entries. `collect f` copies entries under other keys, one by one, and refuses the first
key that is there already: it succeeds exactly when the new keys are distinct (`collect_eq_ok`).
-/

namespace Dict

universe u v

variable {κ : Type u} {α : Type v} [DecidableEq κ]

/-- The keys, in order. -/
abbrev keys (d : List (κ × α)) : List κ := d.map (·.1)

/-- `d[k] = v`: a new key goes to the end. -/
def set (k : κ) (v : α) : List (κ × α) → List (κ × α)
  | [] => [(k, v)]
  | p :: d => if p.1 = k then (k, v) :: d else p :: set k v d

/-- The entries of a list of pairs, where later pairs replace earlier ones. -/
def ofPairs (ps : List (κ × α)) : List (κ × α) := ps.foldl (fun d p => set p.1 p.2 d) []

/-- The entries so far, and pairs copied to them under the keys `f` gives; or the first key that is there already. -/
def collect (f : κ → κ) : List (κ × α) → List (κ × α) → Except κ (List (κ × α))
  | acc, [] => .ok acc
  | acc, (k, v) :: ps => if f k ∈ keys acc then .error (f k) else collect f (acc ++ [(f k, v)]) ps

/-- The pairs under the keys `f` gives. -/
def rename (f : κ → κ) (ps : List (κ × α)) : List (κ × α) := ps.map fun p => (f p.1, p.2)

omit [DecidableEq κ] in
@[simp] theorem keys_rename (f : κ → κ) (ps : List (κ × α)) : keys (rename f ps) = (keys ps).map f := by
  simp [keys, rename]

omit [DecidableEq κ] in
/-- Renaming nothing. -/
theorem rename_eq_self {f : κ → κ} {ps : List (κ × α)} (h : ∀ k ∈ keys ps, f k = k) : rename f ps = ps := by
  induction ps with
  | nil => rfl
  | cons p ps ih =>
    rw [rename, List.map_cons, h p.1 (by simp), ← rename, ih fun k hk => h k (List.mem_cons_of_mem _ hk)]

theorem collect_from (f : κ → κ) (ps : List (κ × α)) : ∀ acc d : List (κ × α), (keys acc).Nodup →
    (collect f acc ps = .ok d ↔ d = acc ++ rename f ps ∧ (keys (acc ++ rename f ps)).Nodup) := by
  induction ps with
  | nil =>
    intro acc d hacc
    simp only [collect, rename, List.map_nil, List.append_nil, Except.ok.injEq]
    exact ⟨fun h => ⟨h.symm, hacc⟩, fun h => h.1.symm⟩
  | cons p ps ih =>
    intro acc d hacc
    obtain ⟨k, v⟩ := p
    have hcons : acc ++ rename f ((k, v) :: ps) = (acc ++ [(f k, v)]) ++ rename f ps := by simp [rename]
    rw [collect]
    split
    · rename_i hmem
      simp only [reduceCtorEq, false_iff, not_and]
      intro _ hn
      rw [hcons, keys, List.map_append, List.map_append, List.append_assoc] at hn
      exact (List.disjoint_of_nodup_append hn) hmem (by simp)
    · rename_i hmem
      rw [hcons]
      refine ih (acc ++ [(f k, v)]) d ?_
      rw [keys, List.map_append, List.nodup_append]
      exact ⟨hacc, List.nodup_singleton _, fun a ha b hb hab => hmem (by simp_all)⟩

/-- **Copying succeeds exactly when the new keys are distinct**, and then keeps values and order. -/
theorem collect_eq_ok {f : κ → κ} {ps d : List (κ × α)} :
    collect f [] ps = .ok d ↔ d = rename f ps ∧ ((keys ps).map f).Nodup := by
  rw [collect_from f ps [] d List.nodup_nil, List.nil_append, keys_rename]

/-- The key that is refused belongs to a pair whose new key is there already. -/
theorem collect_error {f : κ → κ} {ps : List (κ × α)} : ∀ {acc : List (κ × α)} {k : κ}, collect f acc ps = .error k →
    ∃ pre p post, ps = pre ++ p :: post ∧ f p.1 = k ∧ k ∈ keys (acc ++ rename f pre) := by
  induction ps with
  | nil => intro acc k h; cases h
  | cons p ps ih =>
    intro acc k h
    rw [collect] at h
    split at h
    · rename_i hmem
      cases h
      exact ⟨[], p, ps, rfl, rfl, by simpa [rename] using hmem⟩
    · obtain ⟨pre, q, post, rfl, hq, hmem⟩ := ih h
      exact ⟨p :: pre, q, post, rfl, hq, by simpa [rename] using hmem⟩

omit [DecidableEq κ] in
/-- A key that no other key is renamed to is found as before. -/
theorem lookup_rename [BEq κ] [LawfulBEq κ] {f : κ → κ} {ps : List (κ × α)} {k : κ} (h : ∀ k', f k' = k ↔ k' = k) :
    (rename f ps).lookup k = ps.lookup k := by
  induction ps with
  | nil => rfl
  | cons p ps ih =>
    rw [rename, List.map_cons, List.lookup_cons, List.lookup_cons, ← rename, ih]
    by_cases hk : p.1 = k
    · simp [hk, (h k).2 rfl]
    · have hf : (k == f p.1) = false := beq_eq_false_iff_ne.2 fun hf => hk ((h _).1 hf.symm)
      have hk : (k == p.1) = false := beq_eq_false_iff_ne.2 fun heq => hk heq.symm
      rw [hf, hk]

/-- What is found after `d[k] = v`. -/
@[simp] theorem lookup_set [BEq κ] [LawfulBEq κ] (k k' : κ) (v : α) (d : List (κ × α)) :
    (set k v d).lookup k' = if k' = k then some v else d.lookup k' := by
  induction d with
  | nil =>
    by_cases hk : k' = k
    · simp [set, hk]
    · simp [set, List.lookup_cons, hk, beq_eq_false_iff_ne.2 hk]
  | cons p d ih =>
    obtain ⟨k₀, v₀⟩ := p
    rw [set]
    by_cases h₀ : k₀ = k
    · subst h₀
      by_cases hk : k' = k₀
      · simp [hk]
      · simp [List.lookup_cons, hk, beq_eq_false_iff_ne.2 hk]
    · rw [if_neg h₀, List.lookup_cons, List.lookup_cons, ih]
      by_cases hk : k' = k₀
      · simp [hk, h₀]
      · simp [beq_eq_false_iff_ne.2 hk]

/-- The keys after `d[k] = v`. -/
theorem keys_set (k : κ) (v : α) (d : List (κ × α)) :
    keys (set k v d) = if k ∈ keys d then keys d else keys d ++ [k] := by
  induction d with
  | nil => rfl
  | cons p d ih =>
    rw [set]
    by_cases h₀ : p.1 = k
    · simp [h₀]
    · rw [if_neg h₀, keys, List.map_cons, ← keys, ih]
      by_cases hk : k ∈ keys d
      · simp [hk]
      · simp [hk, Ne.symm h₀]

theorem nodup_keys_set {d : List (κ × α)} (h : (keys d).Nodup) (k : κ) (v : α) : (keys (set k v d)).Nodup := by
  rw [keys_set]
  split
  · exact h
  · rename_i hk
    exact List.nodup_append.2 ⟨h, List.nodup_singleton k, fun a ha b hb hab => hk (by simp_all)⟩

/-- **The last pair with a key counts.** -/
theorem lookup_ofPairs [BEq κ] [LawfulBEq κ] (ps : List (κ × α)) (k : κ) :
    (ofPairs ps).lookup k = ps.reverse.lookup k := by
  have hfrom : ∀ d : List (κ × α), (ps.foldl (fun d p => set p.1 p.2 d) d).lookup k =
      (ps.reverse.lookup k).or (d.lookup k) := by
    induction ps with
    | nil => intro d; rfl
    | cons p ps ih =>
      intro d
      have hp : [p].lookup k = if k = p.1 then some p.2 else none := by
        by_cases hk : k = p.1
        · rw [hk, List.lookup_cons, beq_self_eq_true, if_pos rfl]
        · rw [List.lookup_cons, beq_eq_false_iff_ne.2 hk, if_neg hk, List.lookup_nil]
      rw [List.foldl_cons, ih, List.reverse_cons, List.lookup_append, lookup_set, Option.or_assoc, hp]
      by_cases hk : k = p.1
      · rw [if_pos hk, if_pos hk, Option.some_or]
      · rw [if_neg hk, if_neg hk, Option.none_or]
  rw [ofPairs, hfrom, List.lookup_nil, Option.or_none]

theorem set_of_notMem {d : List (κ × α)} {k : κ} (h : k ∉ keys d) (v : α) : set k v d = d ++ [(k, v)] := by
  induction d with
  | nil => rfl
  | cons p d ih =>
    rw [keys, List.map_cons, List.mem_cons, not_or] at h
    rw [set, if_neg (Ne.symm h.1), ih h.2, List.cons_append]

omit [DecidableEq κ] in
theorem lookup_map_snd {β : Type*} [BEq κ] (f : α → β) (d : List (κ × α)) (k : κ) :
    (d.map fun p => (p.1, f p.2)).lookup k = (d.lookup k).map f := by
  induction d with
  | nil => rfl
  | cons p d ih =>
    rw [List.map_cons, List.lookup_cons, List.lookup_cons, ih]
    split <;> rfl

omit [DecidableEq κ] in
/-- What is found among the entries whose keys meet a condition. -/
theorem lookup_filter [BEq κ] [LawfulBEq κ] (p : κ → Bool) (d : List (κ × α)) (k : κ) :
    (d.filter fun e => p e.1).lookup k = if p k then d.lookup k else none := by
  induction d with
  | nil => simp
  | cons e d ih =>
    obtain ⟨k', v⟩ := e
    rw [List.filter_cons]
    by_cases hk : k = k'
    · subst hk
      by_cases hp : p k = true <;> simp [hp, ih]
    · have hbeq : (k == k') = false := beq_eq_false_iff_ne.2 hk
      by_cases hp : p k' = true <;> simp [List.lookup_cons, hp, hbeq, ih]

omit [DecidableEq κ] in
/-- What is found is there. -/
theorem mem_of_lookup [BEq κ] [LawfulBEq κ] {ps : List (κ × α)} {k : κ} {v : α} (h : ps.lookup k = some v) :
    (k, v) ∈ ps := by
  induction ps with
  | nil => cases h
  | cons p ps ih =>
    rw [List.lookup_cons] at h
    split at h
    · rename_i heq
      rw [eq_of_beq heq, ← Option.some.inj h]
      exact List.mem_cons_self
    · exact List.mem_cons_of_mem _ (ih h)

omit [DecidableEq κ] in
/-- With distinct keys, an entry is what its key is found with. -/
theorem lookup_eq_some_iff [BEq κ] [LawfulBEq κ] {ps : List (κ × α)} (hn : (keys ps).Nodup) {k : κ} {v : α} :
    ps.lookup k = some v ↔ (k, v) ∈ ps := by
  induction ps with
  | nil => simp
  | cons p ps ih =>
    obtain ⟨k', v'⟩ := p
    simp only [keys, List.map_cons, List.nodup_cons] at hn
    rw [List.lookup_cons, List.mem_cons]
    by_cases hk : k = k'
    · subst hk
      have hnot : (k, v) ∉ ps := fun hmem => hn.1 (List.mem_map.2 ⟨_, hmem, rfl⟩)
      simp [hnot, eq_comm]
    · have hbeq : (k == k') = false := beq_eq_false_iff_ne.2 hk
      rw [hbeq]
      simpa [hk] using ih hn.2

omit [DecidableEq κ] in
/-- With distinct keys it does not matter where the search begins. -/
theorem lookup_reverse [BEq κ] [LawfulBEq κ] {ps : List (κ × α)} (hn : (keys ps).Nodup) (k : κ) :
    ps.reverse.lookup k = ps.lookup k := by
  have hr : (keys ps.reverse).Nodup := by rwa [keys, List.map_reverse, List.nodup_reverse]
  refine Option.ext fun v => ?_
  rw [lookup_eq_some_iff hr, lookup_eq_some_iff hn, List.mem_reverse]

omit [DecidableEq κ] in
/-- What is found under a key of distinct keys, where each entry gives a value or none. -/
theorem lookup_filterMap {β : Type*} [BEq κ] [LawfulBEq κ] (f : κ × α → Option β) {ps : List (κ × α)}
    (hn : (keys ps).Nodup) {p : κ × α} (hp : p ∈ ps) :
    (ps.filterMap fun p => (f p).map fun v => (p.1, v)).lookup p.1 = f p := by
  induction ps with
  | nil => cases hp
  | cons q ps ih =>
    obtain ⟨hq, hn⟩ := List.nodup_cons.1 hn
    rw [List.filterMap_cons]
    rcases List.mem_cons.1 hp with rfl | hp
    · cases hv : f p with
      | some v => exact List.lookup_cons_self
      | none =>
        refine List.lookup_eq_none_iff.2 fun r hr => ?_
        obtain ⟨q, hmem, hr⟩ := List.mem_filterMap.1 hr
        obtain ⟨v, -, rfl⟩ := Option.map_eq_some_iff.1 hr
        rw [bne_iff_ne]
        exact fun heq => hq (List.mem_map.2 ⟨q, hmem, heq.symm⟩)
    · have hne : (p.1 == q.1) = false := beq_eq_false_iff_ne.2 fun heq => hq (List.mem_map.2 ⟨p, hp, heq⟩)
      cases hv : f q with
      | none => exact ih hn hp
      | some v =>
        rw [Option.map_some]
        show List.lookup p.1 ((q.1, v) :: _) = _
        rw [List.lookup_cons, hne]
        exact ih hn hp

end Dict
