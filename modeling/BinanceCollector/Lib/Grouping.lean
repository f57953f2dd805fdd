import Mathlib.Algebra.BigOperators.Group.Finset.Basic
import Mathlib.Data.List.SplitBy

/-!
# Items by key, and runs

The items of one key keep their order when the keys are interleaved in another way. A quantity that is a sum over the
keys, each of which contributes what its own items give, does not depend on the interleaving (`total_congr`) and changes
with every item by what the item's key contributes (`total_snoc`).

- `runs`: the maximal runs of items with one tag, and what an item at the end does to them (`runs_snoc_same`,
  `runs_snoc_new`).
-/

namespace Grouping

universe u v

variable {α : Type u} {κ : Type v} [DecidableEq κ]

/-! ## Items by key -/

/-- The items of a key, in order. -/
def ofKey (key : α → κ) (k : κ) (l : List α) : List α := l.filter fun a => key a = k

/-- What the items of each key give, over all keys. -/
def total (key : α → κ) (f : List α → ℕ) (l : List α) : ℕ := ∑ k ∈ (l.map key).toFinset, f (ofKey key k l)

variable {key : α → κ} {f : List α → ℕ} {l l' : List α}

theorem ofKey_snoc_self (key : α → κ) (l : List α) (a : α) :
    ofKey key (key a) (l ++ [a]) = ofKey key (key a) l ++ [a] := by
  simp [ofKey]

theorem ofKey_snoc_ne {k : κ} {a : α} (h : key a ≠ k) : ofKey key k (l ++ [a]) = ofKey key k l := by
  simp [ofKey, h]

theorem ofKey_eq_nil {k : κ} (h : k ∉ (l.map key).toFinset) : ofKey key k l = [] := by
  refine List.filter_eq_nil_iff.2 fun a ha => ?_
  have hne : key a ≠ k := fun heq => h (List.mem_toFinset.2 (List.mem_map.2 ⟨a, ha, heq⟩))
  simpa using hne

/-- Keys without items give nothing. -/
theorem total_eq_sum (hf : f [] = 0) {S : Finset κ} (hS : (l.map key).toFinset ⊆ S) :
    total key f l = ∑ k ∈ S, f (ofKey key k l) :=
  Finset.sum_subset hS fun k _ hk => by rw [ofKey_eq_nil hk, hf]

/-- **An item changes what its own key gives.** -/
theorem total_snoc (hf : f [] = 0) (l : List α) (a : α) :
    total key f (l ++ [a]) + f (ofKey key (key a) l) = total key f l + f (ofKey key (key a) l ++ [a]) := by
  have hmem : key a ∈ ((l ++ [a]).map key).toFinset := by simp
  have hsub : (l.map key).toFinset ⊆ ((l ++ [a]).map key).toFinset := by simp
  have hothers : ∑ k ∈ ((l ++ [a]).map key).toFinset.erase (key a), f (ofKey key k (l ++ [a])) =
      ∑ k ∈ ((l ++ [a]).map key).toFinset.erase (key a), f (ofKey key k l) := by
    refine Finset.sum_congr rfl fun k hk => ?_
    rw [ofKey_snoc_ne (Finset.ne_of_mem_erase hk).symm]
  rw [total_eq_sum hf hsub, total, ← Finset.add_sum_erase _ _ hmem, ← Finset.add_sum_erase _ _ hmem, hothers,
    ofKey_snoc_self]
  omega

/-- **The interleaving of the keys does not matter.** -/
theorem total_congr (hf : f [] = 0) (h : ∀ k, ofKey key k l = ofKey key k l') : total key f l = total key f l' := by
  rw [total_eq_sum hf Finset.subset_union_left, total_eq_sum (l := l') hf Finset.subset_union_right]
  exact Finset.sum_congr rfl fun k _ => by rw [h k]

/-! ## Runs -/

/-- The maximal runs of items with one tag. -/
def runs (tag : α → κ) (l : List α) : List (List α) := l.splitBy fun a b => tag a = tag b

variable {tag : α → κ}

@[simp] theorem runs_nil (tag : α → κ) : runs tag [] = [] := rfl

theorem runs_ne_nil (h : l ≠ []) : runs tag l ≠ [] := List.splitBy_ne_nil.2 h

/-- The items of a run have one tag. -/
theorem tag_of_mem_runs {run : List α} (h : run ∈ runs tag l) {a b : α} (ha : a ∈ run) (hb : b ∈ run) :
    tag a = tag b := by
  have hchain : run.IsChain fun a b => tag a = tag b :=
    (List.isChain_of_mem_splitBy h).imp fun _ _ hab => of_decide_eq_true hab
  have hpair := List.isChain_iff_pairwise.1 hchain
  exact List.Pairwise.forall_of_forall_of_flip (R := fun a b => tag a = tag b) (fun _ _ => rfl) hpair
    (hpair.imp fun hab => hab.symm) ha hb

/-- Lists of one tag each, where neighbours have different tags, are the runs of what they join to. -/
theorem runs_flatten {L : List (List α)} (hn : [] ∉ L) (hone : ∀ run ∈ L, ∀ a ∈ run, ∀ b ∈ run, tag a = tag b)
    (hnext : L.IsChain fun r r' => ∀ a ∈ r, ∀ b ∈ r', tag a ≠ tag b) : runs tag L.flatten = L := by
  refine List.splitBy_flatten hn (fun run hrun => ?_) (hnext.imp_of_mem_imp fun r r' hr hr' h => ?_)
  · refine (List.pairwise_of_forall_mem_list fun a ha b hb => ?_).isChain
    exact decide_eq_true (hone run hrun a ha b hb)
  · have hne : r ≠ [] := fun heq => hn (heq ▸ hr)
    have hne' : r' ≠ [] := fun heq => hn (heq ▸ hr')
    exact ⟨hne, hne', decide_eq_false (h _ (List.getLast_mem hne) _ (List.head_mem hne'))⟩

/-- The last item of a run and the first one of the next run have different tags, and so have all others. -/
theorem isChain_runs (tag : α → κ) (l : List α) :
    (runs tag l).IsChain fun r r' => ∀ a ∈ r, ∀ b ∈ r', tag a ≠ tag b := by
  refine (List.isChain_getLast_head_splitBy _ l).imp_of_mem_imp fun r r' hr hr' ⟨hne, hne', hne''⟩ a ha b hb heq => ?_
  rw [decide_eq_false_iff_not, tag_of_mem_runs hr (List.getLast_mem hne) ha,
    tag_of_mem_runs hr' (List.head_mem hne') hb] at hne''
  exact hne'' heq

section

variable {pre : List (List α)} {run : List α} {a b : α}

/-- An item with the tag of the last run goes to this run. -/
theorem runs_snoc_same (h : runs tag l = pre ++ [run]) (hb : b ∈ run) (htag : tag b = tag a) :
    runs tag (l ++ [a]) = pre ++ [run ++ [a]] := by
  have hmem : run ∈ runs tag l := h ▸ by simp
  have hflat : l ++ [a] = (pre ++ [run ++ [a]]).flatten := by
    rw [← List.flatten_splitBy (fun a b => tag a = tag b) l, ← runs, h]
    simp
  have hrun : ∀ c ∈ run ++ [a], tag c = tag a := fun c hc => by
    rcases List.mem_append.1 hc with hc | hc
    · rw [tag_of_mem_runs hmem hc hb, htag]
    · rw [List.mem_singleton.1 hc]
  rw [hflat]
  refine runs_flatten ?_ ?_ ?_
  · have hnil : [] ∉ runs tag l := List.nil_notMem_splitBy _ l
    rw [h] at hnil
    simp_all
  · intro r hr c hc d hd
    rcases List.mem_append.1 hr with hr | hr
    · exact tag_of_mem_runs (l := l) (h ▸ List.mem_append_left _ hr) hc hd
    · rw [List.mem_singleton.1 hr] at hc hd
      rw [hrun c hc, hrun d hd]
  · have hchain := isChain_runs tag l
    rw [h, List.isChain_append] at hchain
    refine hchain.1.append (List.isChain_singleton _) fun r hr r' hr' c hc d hd => ?_
    obtain rfl : run ++ [a] = r' := by simpa using hr'
    have hne := hchain.2.2 r hr run (by simp) c hc b hb
    rwa [htag, ← hrun d hd] at hne

/-- An item with another tag than the last run starts a run. -/
theorem runs_snoc_new (h : runs tag l = pre ++ [run]) (hb : b ∈ run) (htag : tag b ≠ tag a) :
    runs tag (l ++ [a]) = pre ++ [run] ++ [[a]] := by
  have hmem : run ∈ runs tag l := h ▸ by simp
  have hflat : l ++ [a] = (pre ++ [run] ++ [[a]]).flatten := by
    rw [← h, List.flatten_append, runs, List.flatten_splitBy]
    rfl
  rw [hflat, ← h]
  refine runs_flatten ?_ ?_ ?_
  · have hnil : [] ∉ runs tag l := List.nil_notMem_splitBy _ l
    simp_all
  · intro r hr c hc d hd
    rcases List.mem_append.1 hr with hr | hr
    · exact tag_of_mem_runs hr hc hd
    · rw [List.mem_singleton.1 hr, List.mem_singleton] at hc hd
      rw [hc, hd]
  · refine (isChain_runs tag l).append (List.isChain_singleton _) fun r hr r' hr' c hc d hd => ?_
    obtain rfl : run = r := by simpa [h] using hr
    obtain rfl : [a] = r' := by simpa using hr'
    rw [List.mem_singleton.1 hd, tag_of_mem_runs hmem hc hb]
    exact htag

end

end Grouping
