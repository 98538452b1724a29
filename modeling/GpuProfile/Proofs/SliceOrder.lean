import GpuProfile.Proofs.BusyTotals
import GpuProfile.Proofs.ExactSamples

/-!
How far the order of slices shows. A fold does not depend on the order of elements that can change
places, so only the order of the others counts; slices that start together change places in busy
times always, and in the weights of a sample unless one of them takes it from the other.
-/

namespace GpuProfile

section

variable {σ τ : Type}

def Interchange (f : σ → τ → σ) (a b : τ) : Prop := ∀ x, f (f x a) b = f (f x b) a

theorem Interchange.symm {f : σ → τ → σ} {a b : τ} (h : Interchange f a b) : Interchange f b a :=
  fun x => (h x).symm

theorem Interchange.ite {f : σ → τ → σ} {a b : τ} (h : Interchange f a b) (p : τ → Bool) :
    Interchange (fun x c => if p c then f x c else x) a b := by
  intro x
  by_cases ha : p a <;> by_cases hb : p b <;> simp [ha, hb, h x]

theorem foldl_append_cons {f : σ → τ → σ} {a : τ} {before : List τ} (h : ∀ b ∈ before, Interchange f b a)
    (after : List τ) (x : σ) : (before ++ a :: after).foldl f x = (before ++ after).foldl f (f x a) := by
  induction before generalizing x with
  | nil => rfl
  | cons b rest ih =>
    rw [List.forall_mem_cons] at h
    rw [List.cons_append, List.foldl_cons, ih h.2, h.1 x]
    rfl

variable [DecidableEq τ]

def occurrences (a b : τ) (xs : List τ) : List τ := xs.filter fun x => x = a ∨ x = b

theorem occurrences_append (a b : τ) (xs ys : List τ) :
    occurrences a b (xs ++ ys) = occurrences a b xs ++ occurrences a b ys := List.filter_append xs ys

theorem occurrences_cons_of_eq {a b c : τ} (h : c = a ∨ c = b) (xs : List τ) :
    occurrences a b (c :: xs) = c :: occurrences a b xs := List.filter_cons_of_pos (by simpa using h)

theorem occurrences_cons_of_ne {a b c : τ} (h : ¬(c = a ∨ c = b)) (xs : List τ) :
    occurrences a b (c :: xs) = occurrences a b xs := List.filter_cons_of_neg (by simpa using h)

theorem occurrences_filter (a b : τ) (p : τ → Bool) (xs : List τ) :
    occurrences a b (xs.filter p) = (occurrences a b xs).filter p := List.filter_comm _ _ xs

theorem occurrences_comm (a b : τ) (xs : List τ) : occurrences a b xs = occurrences b a xs := by
  simp only [occurrences, or_comm]

theorem occurrences_cons_ne {a b : τ} {xs before after : List τ} (hb : b ∈ before) (hnot : a ∉ before) :
    occurrences b a (a :: xs) ≠ occurrences b a (before ++ after) := by
  rw [occurrences_cons_of_eq (.inr rfl), occurrences_append]
  have hmem : b ∈ occurrences b a before := List.mem_filter.mpr ⟨hb, by simp⟩
  obtain ⟨y, ys, hocc⟩ := List.exists_cons_of_ne_nil (List.ne_nil_of_mem hmem)
  have hy : y ∈ before := (List.mem_filter.mp (hocc ▸ List.mem_cons_self)).1
  rw [hocc]
  intro he
  exact hnot ((List.cons.inj he).1 ▸ hy)

-- The first element of one list stands behind elements in the other that it can change places with,
-- as it has not the same place among them. So it can come first there too.
theorem foldl_eq_of_occurrences {f : σ → τ → σ} {xs ys : List τ} (hperm : xs.Perm ys)
    (h : ∀ a ∈ xs, ∀ b ∈ xs, Interchange f a b ∨ occurrences a b xs = occurrences a b ys) (x : σ) :
    xs.foldl f x = ys.foldl f x := by
  induction xs generalizing ys x with
  | nil => rw [hperm.nil_eq]
  | cons a rest ih =>
    obtain ⟨before, after, rfl, hnot⟩ := List.eq_append_cons_of_mem (hperm.subset List.mem_cons_self)
    have hrest : rest.Perm (before ++ after) := (hperm.trans List.perm_middle).cons_inv
    have hbefore : ∀ b ∈ before, Interchange f b a := by
      intro b hb
      have hmem : b ∈ rest := hrest.symm.subset (List.mem_append_left after hb)
      exact (h b (List.mem_cons_of_mem a hmem) a List.mem_cons_self).resolve_right (occurrences_cons_ne hb hnot)
    rw [List.foldl_cons, foldl_append_cons hbefore]
    refine ih hrest (fun c hc d hd => or_iff_not_imp_left.mpr fun hfix => ?_) (f x a)
    have hocc := (h c (List.mem_cons_of_mem a hc) d (List.mem_cons_of_mem a hd)).resolve_left hfix
    by_cases ha : a = c ∨ a = d
    · have hnil : occurrences c d before = [] := by
        refine List.filter_eq_nil_iff.mpr fun b hb hbcd => hfix ?_
        have hne : b ≠ a := fun he => hnot (he ▸ hb)
        have hswap := hbefore b hb
        rcases ha with rfl | rfl <;> rcases of_decide_eq_true hbcd with rfl | rfl
        · exact absurd rfl hne
        · exact hswap.symm
        · exact hswap
        · exact absurd rfl hne
      rw [occurrences_append, hnil, List.nil_append, occurrences_cons_of_eq ha, occurrences_cons_of_eq ha] at hocc
      rw [occurrences_append, hnil, List.nil_append, (List.cons.inj hocc).2]
    · rw [occurrences_append, occurrences_cons_of_ne ha, occurrences_cons_of_ne ha] at hocc
      rw [hocc, occurrences_append]

end

theorem Busy.extend_interchange {a b : Slice} (h : a.start = b.start) : Interchange Busy.extend a b := by
  intro x
  have ha := a.start_le_stop
  have hb := b.start_le_stop
  simp only [Busy.extend, Busy.mk.injEq]
  omega

/-- The slice takes a sample from another one that starts together with it: it has the sample as a
whole, while the other one covers a part of the interval and has a part. -/
def Slice.TakesFrom (a b : Slice) (v : Interval) : Prop :=
  a.start = b.start ∧ a.Surrounds v ∧ v.start < b.stop ∧ b.stop ≤ v.stop

instance (a b : Slice) (v : Interval) : Decidable (a.TakesFrom b v) := inferInstanceAs (Decidable (_ ∧ _))

theorem coverage_eq_zero {v : Interval} {s : Slice} (h : s.stop ≤ v.start) : (Weights.coverage v s : ℚ) = 0 := by
  have hnone : min v.stop s.stop - max v.start s.start = 0 := by omega
  rw [coverage_exact, hnone]
  simp

namespace Credit

theorem add_interchange_of_surrounds {v : Interval} (count : ℕ) {a b : Slice} (h : a.start = b.start)
    (ha : a.Surrounds v) (hb : ¬b.Surrounds v) (hab : ¬a.TakesFrom b v) :
    Interchange (add (α := ℚ) v count) a b := by
  intro x
  have hcov : (Weights.coverage v b : ℚ) = 0 := by
    apply coverage_eq_zero
    unfold Slice.TakesFrom at hab
    unfold Slice.Surrounds at ha hb hab
    omega
  simp [add, ha, hb, hcov]

theorem add_interchange {v : Interval} (count : ℕ) {a b : Slice} (h : a.start = b.start)
    (hab : ¬a.TakesFrom b v) (hba : ¬b.TakesFrom a v) : Interchange (add (α := ℚ) v count) a b := by
  by_cases ha : a.Surrounds v <;> by_cases hb : b.Surrounds v
  · intro x
    simp [add, ha, hb]
  · exact add_interchange_of_surrounds count h ha hb hab
  · exact (add_interchange_of_surrounds count h.symm hb ha hba).symm
  · intro x
    simp [add, ha, hb, add_right_comm]

end Credit

theorem Weights.eq_of_sample {α : Type} {w w' : Weights α} (h : ∀ i, w.sample i = w'.sample i) : w = w' := by
  have he : w.estimate = w'.estimate := SortedMap.ext_get? fun i => congrArg Credit.estimate (h i)
  have hmin : w.min = w'.min := SortedMap.ext_get? fun i => congrArg Credit.min (h i)
  have hmax : w.max = w'.max := SortedMap.ext_get? fun i => congrArg Credit.max (h i)
  cases w
  cases w'
  rw [Weights.mk.injEq]
  exact ⟨he, hmin, hmax⟩

section

variable {τ : Type} {le : τ → τ → Bool}

theorem append_inj_of_le {a : τ} {xs ys xs' ys' : List τ} (hx : ∀ b ∈ xs, !le a b) (hy : ∀ b ∈ ys, le a b)
    (hx' : ∀ b ∈ xs', !le a b) (hy' : ∀ b ∈ ys', le a b) (h : xs ++ ys = xs' ++ ys') : xs = xs' ∧ ys = ys' := by
  have hnone : ∀ {zs : List τ}, (∀ b ∈ zs, le a b) → zs.filter (fun b => !le a b) = [] := fun hz =>
    List.filter_eq_nil_iff.mpr fun b hb => by simp [hz b hb]
  have hfirst := congrArg (List.filter fun b => !le a b) h
  rw [List.filter_append, List.filter_append, List.filter_eq_self.mpr hx, List.filter_eq_self.mpr hx', hnone hy,
    hnone hy', List.append_nil, List.append_nil] at hfirst
  subst hfirst
  exact ⟨rfl, List.append_cancel_left h⟩

-- Sorting is stable: a sorted list splits in one way into what comes before an element and what comes
-- behind it, so the element stands at the same place whether others are left out before or after.
theorem filter_mergeSort (trans : ∀ a b c, le a b → le b c → le a c) (total : ∀ a b, le a b || le b a)
    (p : τ → Bool) (xs : List τ) : (xs.mergeSort le).filter p = (xs.filter p).mergeSort le := by
  have hbehind : ∀ {a : τ} {xs before after : List τ}, xs.mergeSort le = before ++ a :: after →
      ∀ b ∈ after, le a b := by
    intro a xs before after he
    have hsorted := List.pairwise_mergeSort trans total xs
    rw [he] at hsorted
    exact (List.pairwise_cons.mp (List.pairwise_append.mp hsorted).2.1).1
  induction xs with
  | nil => simp
  | cons a rest ih =>
    obtain ⟨before, after, h, hrest, hbefore⟩ := List.mergeSort_cons trans total a rest
    rw [hrest, List.filter_append] at ih
    rw [h, List.filter_append]
    by_cases hp : p a
    · obtain ⟨before', after', h', hrest', hbefore'⟩ := List.mergeSort_cons trans total a (rest.filter p)
      obtain ⟨hfirst, hlast⟩ := append_inj_of_le (fun b hb => hbefore b (List.mem_filter.mp hb).1)
        (fun b hb => hbehind h b (List.mem_filter.mp hb).1) hbefore' (hbehind h') (ih.trans hrest')
      rw [List.filter_cons_of_pos hp, List.filter_cons_of_pos hp, h', hfirst, hlast]
    · rw [List.filter_cons_of_neg hp, List.filter_cons_of_neg hp]
      exact ih

end

def InOrder (slices : List Slice) : Prop := slices.Pairwise fun a b => a.start ≤ b.start

theorem ts_le_trans (a b c : Slice) (hab : decide (a.ts ≤ b.ts)) (hbc : decide (b.ts ≤ c.ts)) :
    decide (a.ts ≤ c.ts) := decide_eq_true (UInt64.le_trans (of_decide_eq_true hab) (of_decide_eq_true hbc))

theorem ts_le_total (a b : Slice) : decide (a.ts ≤ b.ts) || decide (b.ts ≤ a.ts) := by
  simpa using UInt64.le_total a.ts b.ts

theorem inOrder_mergeSort (slices : List Slice) : InOrder (slices.mergeSort fun a b => a.ts ≤ b.ts) :=
  (List.pairwise_mergeSort ts_le_trans ts_le_total slices).imp fun hle =>
    UInt64.le_iff_toNat_le.mp (of_decide_eq_true hle)

theorem filter_mergeSort_of_start {p : Slice → Bool} {slices : List Slice} {start : ℕ}
    (h : ∀ s ∈ slices.filter p, s.start = start) :
    (slices.mergeSort fun a b => a.ts ≤ b.ts).filter p = slices.filter p := by
  rw [filter_mergeSort ts_le_trans ts_le_total]
  refine List.mergeSort_of_pairwise (List.pairwise_of_forall_mem_list fun s hs s' hs' => decide_eq_true ?_)
  exact UInt64.le_iff_toNat_le.mpr ((h s hs).trans (h s' hs').symm).le

theorem occurrences_mergeSort {a b : Slice} (h : a.start = b.start) (slices : List Slice) :
    occurrences a b (slices.mergeSort fun a b => a.ts ≤ b.ts) = occurrences a b slices := by
  have hstart : ∀ s ∈ occurrences a b slices, s.start = a.start := by
    intro s hs
    rcases of_decide_eq_true (List.mem_filter.mp hs).2 with rfl | rfl
    · rfl
    · exact h.symm
  exact filter_mergeSort_of_start hstart

theorem occurrences_of_start_ne {xs ys : List Slice} {a b : Slice} (h : a.start ≠ b.start) (hperm : xs.Perm ys)
    (hx : InOrder xs) (hy : InOrder ys) : occurrences a b xs = occurrences a b ys := by
  refine List.Perm.eq_of_pairwise (fun c d hc hd hcd hdc => ?_) (hx.filter _) (hy.filter _) (hperm.filter _)
  have hc' := of_decide_eq_true (List.mem_filter.mp hc).2
  have hd' := of_decide_eq_true (List.mem_filter.mp hd).2
  rcases hc' with rfl | rfl <;> rcases hd' with rfl | rfl
  · rfl
  · omega
  · omega
  · rfl

namespace Timeline

structure Reordered (t t' : Timeline) : Prop where
  groups : t.groups = t'.groups
  slices : t.slices.Perm t'.slices

/-- Slices of the group that take samples of the counter from one another keep their order. -/
def KeepsOrder {α : Type} (t t' : Timeline) (c : Counter α) (id : GroupId) : Prop :=
  ∀ a ∈ t.slices, t.profiles a ∧ a.group = id → ∀ b ∈ t.slices, t.profiles b ∧ b.group = id →
    (∃ i ∈ c.samples, a.TakesFrom b (c.interval i)) → occurrences a b t.slices = occurrences a b t'.slices

instance {α : Type} (t t' : Timeline) (c : Counter α) (id : GroupId) : Decidable (t.KeepsOrder t' c id) :=
  inferInstanceAs (Decidable (∀ a ∈ t.slices, _))

variable {t t' : Timeline}

theorem Reordered.profiles_eq (h : t.Reordered t') : t.profiles = t'.profiles := profiles_congr h.groups

theorem Reordered.prepare_slices_perm (h : t.Reordered t') : t.prepare.slices.Perm t'.prepare.slices := by
  refine (t.prepare_slices_perm.trans ?_).trans t'.prepare_slices_perm.symm
  rw [h.profiles_eq]
  exact h.slices.filter _

theorem Reordered.ofGroup_perm (h : t.Reordered t') (id : GroupId) :
    (t.prepare.ofGroup id).Perm (t'.prepare.ofGroup id) := by
  rw [prepare_ofGroup, prepare_ofGroup]
  exact h.prepare_slices_perm.filter _

theorem inOrder_ofGroup (t : Timeline) (id : GroupId) : InOrder (t.prepare.ofGroup id) := by
  rw [prepare_ofGroup]
  exact (inOrder_mergeSort _).filter _

theorem ofGroup_eq_mergeSort (t : Timeline) (id : GroupId) : t.prepare.ofGroup id =
    ((t.slices.filter t.profiles).filter (·.group = id)).mergeSort fun a b => a.ts ≤ b.ts := by
  rw [prepare_ofGroup, prepare, filter_mergeSort ts_le_trans ts_le_total]

theorem occurrences_ofGroup (t : Timeline) (id : GroupId) {a b : Slice} (h : a.start = b.start) :
    occurrences a b (t.prepare.ofGroup id) =
      ((occurrences a b t.slices).filter t.profiles).filter fun s => s.group = id := by
  rw [ofGroup_eq_mergeSort, occurrences_mergeSort h, occurrences_filter, occurrences_filter]

theorem Reordered.occurrences_eq (h : t.Reordered t') (id : GroupId) {a b : Slice}
    (hkeep : a.start = b.start → occurrences a b t.slices = occurrences a b t'.slices) :
    occurrences a b (t.prepare.ofGroup id) = occurrences a b (t'.prepare.ofGroup id) := by
  by_cases hs : a.start = b.start
  · rw [t.occurrences_ofGroup id hs, t'.occurrences_ofGroup id hs, hkeep hs, h.profiles_eq]
  · exact occurrences_of_start_ne hs (h.ofGroup_perm id) (t.inOrder_ofGroup id) (t'.inOrder_ofGroup id)

theorem Reordered.foldl_ofGroup {σ : Type} (h : t.Reordered t') (id : GroupId) {f : σ → Slice → σ}
    (hf : ∀ a ∈ t.prepare.ofGroup id, ∀ b ∈ t.prepare.ofGroup id, a.start = b.start →
      Interchange f a b ∨ occurrences a b t.slices = occurrences a b t'.slices) (x : σ) :
    (t.prepare.ofGroup id).foldl f x = (t'.prepare.ofGroup id).foldl f x := by
  refine foldl_eq_of_occurrences (h.ofGroup_perm id) (fun a ha b hb => ?_) x
  by_cases hs : a.start = b.start
  · exact (hf a ha b hb hs).imp_right fun hocc => h.occurrences_eq id fun _ => hocc
  · exact .inr (h.occurrences_eq id fun he => absurd he hs)

theorem Reordered.busy_eq (h : t.Reordered t') (id : GroupId) (b : Busy) :
    (t.prepare.ofGroup id).foldl Busy.extend b = (t'.prepare.ofGroup id).foldl Busy.extend b :=
  h.foldl_ofGroup id (fun _ _ _ _ hs => .inl (Busy.extend_interchange hs)) b

theorem Reordered.credit_eq (h : t.Reordered t') {c : Counter ℚ} {id : GroupId} (hkeep : t.KeepsOrder t' c id)
    {i : ℕ} (hi : i ∈ c.samples) (count : ℕ) :
    (Credit.ofSlices (c.interval i) count (t.prepare.ofGroup id) : Credit ℚ) =
      Credit.ofSlices (c.interval i) count (t'.prepare.ofGroup id) := by
  rw [Credit.ofSlices, Credit.ofSlices, List.foldl_filter, List.foldl_filter]
  refine h.foldl_ofGroup id (fun a ha b hb hs => ?_) Credit.none
  obtain ⟨hma, hpa⟩ := mem_prepare_ofGroup.mp ha
  obtain ⟨hmb, hpb⟩ := mem_prepare_ofGroup.mp hb
  by_cases hab : a.TakesFrom b (c.interval i)
  · exact .inr (hkeep a hma hpa b hmb hpb ⟨i, hi, hab⟩)
  · by_cases hba : b.TakesFrom a (c.interval i)
    · refine .inr ?_
      rw [occurrences_comm, hkeep b hmb hpb a hma hpa ⟨i, hi, hba⟩, occurrences_comm]
    · exact .inl ((Credit.add_interchange count hs hab hba).ite _)

theorem Reordered.weights_eq (h : t.Reordered t') {c : Counter ℚ} (hc : c.Increasing) {id : GroupId}
    (hkeep : t.KeepsOrder t' c id) : t.prepare.weights c id = t'.prepare.weights c id := by
  have hsample : ∀ i, (t.prepare.weights c id).sample i = (t'.prepare.weights c id).sample i := by
    intro i
    by_cases hi : i ∈ c.samples
    · rw [weights_sample hc t.prepare id hi, weights_sample hc t'.prepare id hi,
        Interval.tally_perm _ h.prepare_slices_perm, h.credit_eq hkeep hi]
    · rw [sample_eq_none hc t.prepare id fun hm => hi hm.1, sample_eq_none hc t'.prepare id fun hm => hi hm.1]
  exact Weights.eq_of_sample hsample

end Timeline

end GpuProfile
