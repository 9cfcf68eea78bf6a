import Mathlib.GroupTheory.OrderOfElement
import Mathlib.LinearAlgebra.Vandermonde
import Mathlib.Tactic.LinearCombination
import Mathlib.Tactic.Ring

/-!
# Reed–Solomon codes

A list over a ring in which `2 = 0` is a polynomial, with its coefficients in order of
descending powers. `generator r n` is the product of all `X - r ^ i` with `i < n`, without its
leading coefficient, and `remainder` is what a feedback register leaves of a message.

* `eval_generator`: the generator has the roots it should have.
* `eval_codeword`: a message with its remainder has them too.
* `eq_of_differences`: **two codewords are the same** that differ in no more places than the
  generator has roots, and are not longer than `r` has powers.
* `nearest_unique`: half as many places in which a codeword was changed do not make it look
  like another.
-/

namespace ReedSolomon

variable {R : Type*} {xs ys zs : List R}

/-! ## Differences -/

section

variable [DecidableEq R]

/-- In how many places two lists differ. -/
def differences (xs ys : List R) : ℕ := (xs.zip ys).countP fun t => t.1 ≠ t.2

theorem differences_cons (x y : R) (xs ys : List R) :
    differences (x :: xs) (y :: ys) = differences xs ys + if x ≠ y then 1 else 0 := by
  unfold differences
  rw [List.zip_cons_cons, List.countP_cons]
  simp

theorem differences_comm (xs ys : List R) : differences xs ys = differences ys xs := by
  induction xs generalizing ys with
  | nil => simp [differences]
  | cons x xs ih =>
    cases ys with
    | nil => simp [differences]
    | cons y ys =>
      rw [differences_cons, differences_cons, ih]
      simp only [ne_comm]

theorem differences_triangle (hxy : xs.length = ys.length) (hyz : ys.length = zs.length) :
    differences xs zs ≤ differences xs ys + differences ys zs := by
  induction xs generalizing ys zs with
  | nil => simp [differences]
  | cons x xs ih =>
    match ys, zs, hxy, hyz with
    | y :: ys, z :: zs, hxy, hyz =>
      have hrest := @ih ys zs (by simpa using hxy) (by simpa using hyz)
      have hhead : (if x ≠ z then 1 else 0) ≤ (if x ≠ y then 1 else 0) + if y ≠ z then 1 else 0 := by
        by_cases h1 : x = y <;> by_cases h2 : y = z <;> simp [h1, h2]
        split_ifs <;> omega
      rw [differences_cons, differences_cons, differences_cons]
      omega

end

/-! ## Lists as polynomials -/

/-- The terms of a polynomial: coefficients with their exponents. -/
def terms : List R → List (R × ℕ)
  | [] => []
  | x :: xs => (x, xs.length) :: terms xs

theorem lt_of_mem_terms {t : R × ℕ} (h : t ∈ terms xs) : t.2 < xs.length := by
  induction xs with
  | nil => exact absurd h List.not_mem_nil
  | cons x xs ih =>
    rw [List.length_cons]
    rcases List.mem_cons.1 h with rfl | h
    · exact Nat.lt_succ_self _
    · have hlt := ih h
      omega

theorem nodup_terms (xs : List R) : ((terms xs).map Prod.snd).Nodup := by
  induction xs with
  | nil => exact List.nodup_nil
  | cons x xs ih =>
    refine List.nodup_cons.2 ⟨fun h => ?_, ih⟩
    obtain ⟨t, ht, heq⟩ := List.mem_map.1 h
    have hlt := lt_of_mem_terms ht
    omega

variable [CommRing R] {r a b : R} {cs : List R}

def eval (a : R) : List R → R
  | [] => 0
  | x :: xs => x * a ^ xs.length + eval a xs

theorem eval_append (a : R) (xs ys : List R) : eval a (xs ++ ys) = eval a xs * a ^ ys.length + eval a ys := by
  induction xs with
  | nil => simp [eval]
  | cons x xs ih =>
    simp only [List.cons_append, eval, ih, List.length_append, pow_add]
    ring

theorem eval_zeros (a : R) (n : ℕ) (xs : List R) : eval a (List.replicate n 0 ++ xs) = eval a xs := by
  induction n with
  | zero => rfl
  | succ n ih => rw [List.replicate_succ, List.cons_append, eval, ih, zero_mul, zero_add]

/-- Sums, place by place. -/
def add (xs ys : List R) : List R := List.zipWith (· + ·) xs ys

theorem eval_add (h : xs.length = ys.length) : eval a (add xs ys) = eval a xs + eval a ys := by
  induction xs generalizing ys with
  | nil =>
    cases ys with
    | nil => simp [add, eval]
    | cons y ys => cases h
  | cons x xs ih =>
    cases ys with
    | nil => cases h
    | cons y ys =>
      have hlen : xs.length = ys.length := by simpa using h
      have hsum := ih hlen
      unfold add at hsum ⊢
      have hboth : (List.zipWith (· + ·) xs ys).length = ys.length := by simp [hlen]
      rw [List.zipWith_cons_cons, eval, eval, eval, hsum, hboth, hlen]
      ring

section

variable [DecidableEq R]

/-- The terms that are there. -/
def support (xs : List R) : List (R × ℕ) := (terms xs).filter fun t => t.1 ≠ 0

theorem length_support (xs : List R) : (support xs).length = xs.countP (· ≠ 0) := by
  unfold support
  induction xs with
  | nil => rfl
  | cons x xs ih =>
    by_cases hx : x = 0
    · rw [terms, List.filter_cons_of_neg (by simpa using hx), List.countP_cons_of_neg (by simpa using hx), ih]
    · rw [terms, List.filter_cons_of_pos (by simpa using hx), List.countP_cons_of_pos (by simpa using hx),
        List.length_cons, ih]

theorem eval_support (a : R) (xs : List R) :
    eval a xs = ((support xs).map fun t => t.1 * a ^ t.2).sum := by
  unfold support
  induction xs with
  | nil => rfl
  | cons x xs ih =>
    by_cases hx : x = 0
    · rw [terms, List.filter_cons_of_neg (by simpa using hx), ← ih, eval, hx, zero_mul, zero_add]
    · rw [terms, List.filter_cons_of_pos (by simpa using hx), List.map_cons, List.sum_cons, ← ih, eval]

/-- A polynomial with as many roots in a row as it has terms is `0`: its terms would be a
combination of the rows of a Vandermonde matrix. -/
theorem zero_of_roots [IsDomain R] {n : ℕ} (hlen : xs.length ≤ orderOf r)
    (hroots : ∀ i < n, eval (r ^ i) xs = 0) (hterms : xs.countP (· ≠ 0) ≤ n) : ∀ x ∈ xs, x = 0 := by
  have hm : (support xs).length ≤ n := (length_support xs).trans_le hterms
  have hmem : ∀ k : Fin (support xs).length, (support xs).get k ∈ terms xs ∧ ((support xs).get k).1 ≠ 0 := by
    intro k
    have h := List.mem_filter.1 (List.get_mem (support xs) k)
    exact ⟨h.1, by simpa using h.2⟩
  have hnodup : ((support xs).map Prod.snd).Nodup :=
    (nodup_terms xs).sublist (List.filter_sublist.map _)
  have hinjective : Function.Injective fun k : Fin (support xs).length => r ^ ((support xs).get k).2 := by
    intro k k' hk
    have hlt := lt_of_mem_terms (hmem k).1
    have hlt' := lt_of_mem_terms (hmem k').1
    have hexponent := pow_injOn_Iio_orderOf (Set.mem_Iio.2 (hlt.trans_le hlen)) (Set.mem_Iio.2 (hlt'.trans_le hlen)) hk
    have hget : ((support xs).map Prod.snd).get ⟨k, by simp⟩ = ((support xs).map Prod.snd).get ⟨k', by simp⟩ := by
      simpa using hexponent
    have hindex := hnodup.get_inj_iff.1 hget
    exact Fin.ext (Fin.mk.inj hindex)
  have hsum : ∀ i : Fin (support xs).length, ∑ k : Fin (support xs).length,
      ((support xs).get k).1 * (r ^ ((support xs).get k).2) ^ (i : ℕ) = 0 := by
    intro i
    have hroot := hroots i (i.isLt.trans_le hm)
    rw [eval_support, ← Fin.sum_univ_fun_getElem] at hroot
    rw [← hroot]
    exact Finset.sum_congr rfl fun k _ => congrArg _ (pow_right_comm _ _ _)
  have hzero := Matrix.eq_zero_of_forall_pow_sum_mul_pow_eq_zero hinjective hsum
  have hempty : (support xs).length = 0 := by
    by_contra hne
    have hk := congrFun hzero ⟨0, by omega⟩
    exact (hmem _).2 hk
  rw [length_support, List.countP_eq_zero] at hempty
  intro x hx
  simpa using hempty x hx

end

/-! ## Generators -/

/-- Times `X + b`; the leading coefficient is dropped. -/
def timesRoot (b : R) : List R → List R
  | [] => []
  | [c] => [c * b]
  | c :: c' :: cs => (c * b + c') :: timesRoot b (c' :: cs)

theorem length_timesRoot (b : R) (cs : List R) : (timesRoot b cs).length = cs.length := by
  induction cs with
  | nil => rfl
  | cons c cs ih =>
    cases cs with
    | nil => rfl
    | cons c' cs => simpa [timesRoot] using ih

/-- What is dropped is there again in the product. -/
theorem eval_timesRoot (a b c : R) (cs : List R) :
    eval a (timesRoot b (c :: cs)) + c * a ^ (cs.length + 1) = eval a (c :: cs) * (a + b) := by
  induction cs generalizing c with
  | nil =>
    simp [timesRoot, eval]
    ring
  | cons c' cs ih =>
    have hrest := ih c'
    have hlen : (timesRoot b (c' :: cs)).length = cs.length + 1 := length_timesRoot b (c' :: cs)
    simp only [timesRoot, eval, List.length_cons, hlen] at hrest ⊢
    linear_combination hrest

/-- A leading `1` behind `z` zeros moves one place to the front. -/
theorem timesRoot_leading (b : R) (z : ℕ) (cs : List R) :
    ∃ cs', cs'.length = cs.length + 1 ∧
      timesRoot b (List.replicate (z + 1) 0 ++ 1 :: cs) = List.replicate z 0 ++ 1 :: cs' := by
  induction z with
  | zero =>
    refine ⟨timesRoot b (1 :: cs), length_timesRoot _ _, ?_⟩
    simp [timesRoot]
  | succ z ih =>
    obtain ⟨cs', hlen, hcs⟩ := ih
    refine ⟨cs', hlen, ?_⟩
    rw [List.replicate_succ] at hcs
    rw [List.replicate_succ, List.replicate_succ]
    simp only [List.cons_append, timesRoot, zero_mul, zero_add] at hcs ⊢
    exact congrArg _ hcs

/-- The product of `X + b` for `b` in some roots, as far as it fits in `n` places. -/
def product (n : ℕ) (roots : List R) : List R :=
  roots.foldl (fun cs b => timesRoot b cs) (List.replicate (n - 1) 0 ++ [1])

theorem length_product (hn : 0 < n) (roots : List R) : (product n roots).length = n := by
  have hsame : ∀ cs : List R, (roots.foldl (fun cs b => timesRoot b cs) cs).length = cs.length := by
    induction roots with
    | nil => exact fun _ => rfl
    | cons b roots ih => exact fun cs => (ih _).trans (length_timesRoot b cs)
  unfold product
  rw [hsame, List.length_append, List.length_replicate, List.length_singleton]
  omega

/-- As long as it fits. -/
theorem product_leading {n : ℕ} (roots : List R) (h : roots.length < n) :
    ∃ cs, cs.length = roots.length ∧ product n roots = List.replicate (n - 1 - roots.length) 0 ++ 1 :: cs ∧
      ∀ a, eval a (product n roots) = (roots.map (a + ·)).prod := by
  induction roots using List.reverseRecOn with
  | nil =>
    refine ⟨[], rfl, by simp [product], fun a => ?_⟩
    unfold product
    rw [List.foldl_nil, eval_zeros]
    simp [eval]
  | append_singleton roots b ih =>
    rw [List.length_append, List.length_singleton] at h
    obtain ⟨cs, hlen, hcs, heval⟩ := ih (by omega)
    have hstep : product n (roots ++ [b]) = timesRoot b (product n roots) := by
      unfold product
      rw [List.foldl_append]
      rfl
    have hz : n - 1 - roots.length = (n - 1 - (roots.length + 1)) + 1 := by omega
    obtain ⟨cs', hlen', hcs'⟩ := timesRoot_leading b (n - 1 - (roots.length + 1)) cs
    rw [hstep, hcs, hz, hcs', List.length_append, List.length_singleton]
    refine ⟨cs', by omega, rfl, fun a => ?_⟩
    have hproduct := eval_timesRoot a b 0 (List.replicate (n - 1 - (roots.length + 1)) 0 ++ 1 :: cs)
    rw [← List.cons_append, ← List.replicate_succ, hcs', ← hz, ← hcs, heval, zero_mul, add_zero] at hproduct
    rw [hproduct, List.map_append, List.prod_append]
    simp

/-- The generator of `n` roots, the powers of `r`. -/
def generator (r : R) (n : ℕ) : List R := product n ((List.range n).map (r ^ ·))

theorem length_generator (hn : 0 < n) : (generator r n).length = n := length_product hn _

/-- **The generator** is the product of its roots' factors, but for its leading term. -/
theorem eval_generator (hn : 0 < n) (a : R) :
    a ^ n + eval a (generator r n) = ((List.range n).map fun i => a + r ^ i).prod := by
  cases n with
  | zero => omega
  | succ n =>
  obtain ⟨cs, hlen, hcs, heval⟩ := @product_leading _ _ (n + 1) ((List.range n).map (r ^ ·)) (by simp)
  have hlast : generator r (n + 1) = timesRoot (r ^ n) (product (n + 1) ((List.range n).map (r ^ ·))) := by
    unfold generator product
    rw [List.range_succ, List.map_append, List.foldl_append]
    rfl
  rw [List.length_map, List.length_range] at hlen hcs
  rw [Nat.add_sub_cancel, Nat.sub_self, List.replicate_zero, List.nil_append] at hcs
  have hvalue : eval a (1 :: cs) = ((List.range n).map fun i => a + r ^ i).prod := by
    rw [← hcs, heval, List.map_map]
    rfl
  have hproduct := eval_timesRoot a (r ^ n) 1 cs
  rw [hvalue, hlen, one_mul, ← hcs, ← hlast] at hproduct
  rw [add_comm, hproduct, List.range_succ, List.map_append, List.prod_append, List.map_singleton,
    List.prod_singleton]

/-! ## Codewords -/

/-- A step of the register. -/
def remainderStep (coefficients state : List R) (x : R) : List R :=
  List.zipWith (fun c s => s + c * (x + state.headD 0)) coefficients (state.tail ++ [0])

def remainder (coefficients data : List R) : List R :=
  data.foldl (remainderStep coefficients) (List.replicate coefficients.length 0)

theorem length_remainderStep {coefficients state : List R} (h : state.length = coefficients.length) (x : R) :
    (remainderStep coefficients state x).length = coefficients.length := by
  unfold remainderStep
  rw [List.length_zipWith, List.length_append, List.length_tail, List.length_singleton]
  omega

theorem length_foldl_remainderStep {coefficients state : List R} (h : state.length = coefficients.length)
    (data : List R) : (data.foldl (remainderStep coefficients) state).length = coefficients.length := by
  induction data generalizing state with
  | nil => exact h
  | cons x data ih => exact ih (length_remainderStep h x)

theorem length_remainder (coefficients data : List R) :
    (remainder coefficients data).length = coefficients.length :=
  length_foldl_remainderStep List.length_replicate data

theorem eval_zipWith (k : R) (h : xs.length = ys.length) :
    eval a (List.zipWith (fun c s => s + c * k) xs ys) = eval a ys + k * eval a xs := by
  induction xs generalizing ys with
  | nil =>
    cases ys with
    | nil => simp [eval]
    | cons y ys => cases h
  | cons x xs ih =>
    cases ys with
    | nil => cases h
    | cons y ys =>
      have hlen : xs.length = ys.length := by simpa using h
      have hboth : (List.zipWith (fun c s => s + c * k) xs ys).length = ys.length := by simp [hlen]
      rw [List.zipWith_cons_cons, eval, eval, eval, ih hlen, hboth, hlen]
      ring

variable [CharP R 2]

/-- What a step leaves, as a polynomial. -/
theorem eval_remainderStep {coefficients state : List R} (h : state.length = coefficients.length)
    (hne : state ≠ []) (a x : R) :
    eval a (remainderStep coefficients state x) = a * eval a state + state.headD 0 * a ^ coefficients.length +
      (x + state.headD 0) * eval a coefficients := by
  cases state with
  | nil => exact absurd rfl hne
  | cons s t =>
    have hlen : coefficients.length = (t ++ [0]).length := by simpa using h.symm
    have htwo : (s + s : R) = 0 := CharTwo.add_self_eq_zero s
    unfold remainderStep
    rw [List.tail_cons, List.headD_cons, eval_zipWith _ hlen, eval_append, hlen, List.length_append]
    simp only [eval, List.length_singleton, List.length_nil, zero_mul, add_zero, pow_succ]
    linear_combination (-(a ^ t.length * a)) * htwo

/-- What was read, with the register behind it, is a multiple of the generator. -/
theorem foldl_remainderStep {coefficients state : List R} (h : state.length = coefficients.length)
    (hne : coefficients ≠ []) {d q : R}
    (hq : d * a ^ coefficients.length + eval a state = q * (a ^ coefficients.length + eval a coefficients))
    (data : List R) : ∃ q', (d * a ^ data.length + eval a data) * a ^ coefficients.length +
      eval a (data.foldl (remainderStep coefficients) state) =
        q' * (a ^ coefficients.length + eval a coefficients) := by
  induction data generalizing state d q with
  | nil => exact ⟨q, by simpa [eval] using hq⟩
  | cons x data ih =>
    have hstate : state ≠ [] := by
      rintro rfl
      exact hne (List.length_eq_zero_iff.1 h.symm)
    have hstep := eval_remainderStep h hstate a x
    have hnext : (d * a + x) * a ^ coefficients.length + eval a (remainderStep coefficients state x) =
        (q * a + (x + state.headD 0)) * (a ^ coefficients.length + eval a coefficients) := by
      rw [hstep]
      linear_combination a * hq
    obtain ⟨q', hq'⟩ := ih (length_remainderStep h x) hnext
    refine ⟨q', ?_⟩
    rw [List.foldl_cons, ← hq', eval, List.length_cons]
    ring

/-- **A message with its remainder** is a multiple of the generator. -/
theorem eval_codeword {coefficients : List R} (hne : coefficients ≠ []) (a : R) (data : List R) :
    ∃ q, eval a (data ++ remainder coefficients data) = q * (a ^ coefficients.length + eval a coefficients) := by
  have hstart : (0 : R) * a ^ coefficients.length + eval a (List.replicate coefficients.length 0) =
      0 * (a ^ coefficients.length + eval a coefficients) := by
    have hzeros := eval_zeros a coefficients.length ([] : List R)
    rw [List.append_nil] at hzeros
    rw [hzeros]
    simp [eval]
  obtain ⟨q, hq⟩ := foldl_remainderStep List.length_replicate hne hstart data
  refine ⟨q, ?_⟩
  rw [eval_append, length_remainder, ← hq]
  unfold remainder
  ring

/-- A codeword has the roots of its generator. -/
theorem eval_root (r : R) {n i : ℕ} (hi : i < n) (data : List R) :
    eval (r ^ i) (data ++ remainder (generator r n) data) = 0 := by
  have hlen : (generator r n).length = n := length_generator (by omega)
  have hne : generator r n ≠ [] := by
    intro hnil
    rw [hnil] at hlen
    exact absurd hlen (by simp; omega)
  obtain ⟨q, hq⟩ := eval_codeword hne (r ^ i) data
  have hroot : ((List.range n).map fun j => r ^ i + r ^ j).prod = 0 :=
    List.prod_eq_zero (List.mem_map.2 ⟨i, List.mem_range.2 hi, CharTwo.add_self_eq_zero _⟩)
  rw [hq, hlen, eval_generator (by omega), hroot, mul_zero]

/-! ## Distance -/

variable [DecidableEq R]

theorem countP_add (h : xs.length = ys.length) : (add xs ys).countP (· ≠ 0) = differences xs ys := by
  induction xs generalizing ys with
  | nil =>
    cases ys with
    | nil => rfl
    | cons y ys => cases h
  | cons x xs ih =>
    cases ys with
    | nil => cases h
    | cons y ys =>
      have hrest : (add xs ys).countP (· ≠ 0) = differences xs ys := ih (by simpa using h)
      unfold add at hrest ⊢
      rw [differences_cons, List.zipWith_cons_cons, List.countP_cons, hrest]
      have hhead : (x + y ≠ 0) ↔ x ≠ y := not_congr CharTwo.add_eq_zero
      simp [hhead]

/-- **Two codewords are the same** that differ in no more places than they have roots. -/
theorem eq_of_differences [IsDomain R] {n : ℕ} (hlen : xs.length = ys.length) (horder : xs.length ≤ orderOf r)
    (hx : ∀ i < n, eval (r ^ i) xs = 0) (hy : ∀ i < n, eval (r ^ i) ys = 0) (hn : differences xs ys ≤ n) :
    xs = ys := by
  have hlength : (add xs ys).length = xs.length := by simp [add, hlen]
  have hroots : ∀ i < n, eval (r ^ i) (add xs ys) = 0 := by
    intro i hi
    rw [eval_add hlen, hx i hi, hy i hi, add_zero]
  have hzero := zero_of_roots (hlength.trans_le horder) hroots ((countP_add hlen).trans_le hn)
  refine List.ext_getElem hlen fun i hi hi' => ?_
  have hi'' : i < (add xs ys).length := hlength ▸ hi
  have hsum : xs[i] + ys[i] = 0 := by
    rw [← hzero _ (List.getElem_mem hi'')]
    exact List.getElem_zipWith.symm
  exact CharTwo.add_eq_zero.1 hsum

/-- **The nearest codeword** is the only one within half the number of roots. -/
theorem nearest_unique [IsDomain R] {n t : ℕ} (hxz : xs.length = zs.length) (hzy : zs.length = ys.length)
    (horder : xs.length ≤ orderOf r) (hx : ∀ i < n, eval (r ^ i) xs = 0) (hy : ∀ i < n, eval (r ^ i) ys = 0)
    (ht : 2 * t ≤ n) (hdx : differences xs zs ≤ t) (hdy : differences zs ys ≤ t) : xs = ys := by
  have htriangle := differences_triangle hxz hzy
  exact eq_of_differences (hxz.trans hzy) horder hx hy (by omega)

end ReedSolomon
