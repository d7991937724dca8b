import BenchmarkAi.Events
import Mathlib.Data.Rat.Floor
import Mathlib.Order.Bounds.Basic
import Mathlib.Tactic.Linarith
import Mathlib.Tactic.NormNum
/-!
# The volume of a fetch

`preflight/s3_estimator.py` adds up the objects that are to be fetched, and `kubernetes_dispatcher.py`
makes the size of a volume of that: room for the largest object and something more, and for a tenth
of all of them. The sizes are estimated in binary megabytes and requested in decimal ones. The numbers
1.2 and 0.1 are rationals here, and so is all arithmetic.
-/

namespace BenchmarkAi.Fetcher

/-! ## The estimate -/

/-- What S3 says about a key: the length of the object, if there is one, and the sizes of the objects whose key begins
with it. Each of the two can be a `ClientError`, with its text. -/
structure S3Source where
  content_length : Except String Nat
  sizes : Except String (List Nat)

def countObject (info : ContentSizeInfo) (size : Nat) : ContentSizeInfo :=
  if size = 0 then info else ⟨info.total_size + size, info.file_count + 1, max info.max_size size⟩

def s3EstimateSize (src : S3Source) : Except String ContentSizeInfo :=
  let listed := src.sizes.map fun sizes => sizes.foldl countObject ⟨0, 0, 0⟩
  match src.content_length with
  | .ok length => if 0 < length then .ok ⟨length, 1, length⟩ else listed
  | .error _ => listed

/-! ## The size of the volume -/

def bytesInMb : Nat := 1024 * 1024

def align (n step : Int) : Int :=
  let r := n % step
  if r ≠ 0 then n + (step - r) else n

def volumeSizeAlign : Int := 4

def ceilMb (bytes : Nat) : Int := ⌈(bytes : ℚ) / bytesInMb⌉

def getVolumeSize (info : ContentSizeInfo) : Int :=
  let total_mb := ceilMb info.total_size
  let max_mb := ceilMb info.max_size
  let required_mb := ⌈max ((max_mb : ℚ) * (12 / 10)) ((total_mb : ℚ) * (1 / 10))⌉
  align required_mb volumeSizeAlign

def decimalBytes (megabytes : Int) : Int := megabytes * 10 ^ 6

/-! ## The estimate is right -/

/-- The objects that are fetched: the one with the key, if it is not empty, and otherwise those under it. -/
def S3Source.Fetches (src : S3Source) (sizes : List Nat) : Prop :=
  (∃ length, src.content_length = .ok length ∧ 0 < length ∧ sizes = [length]) ∨
    ((∀ length, src.content_length = .ok length → length = 0) ∧ src.sizes = .ok sizes)

theorem foldl_countObject (sizes : List Nat) (info : ContentSizeInfo) :
    (sizes.foldl countObject info).total_size = info.total_size + sizes.sum ∧
      (sizes.foldl countObject info).max_size = sizes.foldl max info.max_size := by
  induction sizes generalizing info with
  | nil => exact ⟨rfl, rfl⟩
  | cons size sizes ih =>
    rw [List.foldl_cons, (ih _).1, (ih _).2, List.foldl_cons, List.sum_cons, countObject]
    split
    · rename_i hz
      subst hz
      exact ⟨by omega, by rw [Nat.max_zero]⟩
    · exact ⟨by simp only; omega, rfl⟩

theorem s3EstimateSize_ok {src : S3Source} {sizes : List Nat} (h : src.Fetches sizes) : ∃ info,
    s3EstimateSize src = .ok info ∧ info.total_size = sizes.sum ∧ info.max_size = sizes.foldl max 0 := by
  rw [s3EstimateSize]
  rcases h with ⟨length, hl, hpos, rfl⟩ | ⟨he, hs⟩
  · rw [hl]
    dsimp only
    rw [if_pos hpos]
    exact ⟨_, rfl, by simp, by simp⟩
  · have hli := foldl_countObject sizes ⟨0, 0, 0⟩
    refine ⟨sizes.foldl countObject ⟨0, 0, 0⟩, ?_, hli.1.trans (Nat.zero_add _), hli.2⟩
    cases hl : src.content_length with
    | error e =>
      rw [hs]
      rfl
    | ok length =>
      rw [he length hl, hs]
      rfl

theorem le_foldl_max (sizes : List Nat) (n : Nat) : n ≤ sizes.foldl max n ∧ ∀ size ∈ sizes, size ≤ sizes.foldl max n := by
  induction sizes generalizing n with
  | nil => exact ⟨Nat.le_refl n, nofun⟩
  | cons size sizes ih =>
    obtain ⟨hle, hall⟩ := ih (max n size)
    rw [List.forall_mem_cons]
    exact ⟨(Nat.le_max_left n size).trans hle, (Nat.le_max_right n size).trans hle, hall⟩

/-! ## The size is enough -/

theorem align_spec (n : Int) {step} (hs : 0 < step) :
    step ∣ align n step ∧ n ≤ align n step ∧ align n step < n + step := by
  have hlt := Int.emod_lt_of_pos n hs
  have hge := Int.emod_nonneg n (Int.ne_of_gt hs)
  have hdiv := Int.emod_add_mul_ediv n step
  unfold align
  dsimp only
  split
  · refine ⟨⟨n / step + 1, ?_⟩, by omega, by omega⟩
    rw [mul_add]
    omega
  · rename_i hz
    rw [not_not] at hz
    exact ⟨Int.dvd_of_emod_eq_zero hz, le_refl n, by omega⟩

theorem le_ceilMb (bytes : Nat) : (bytes : ℚ) ≤ ceilMb bytes * bytesInMb := by
  have hc := Int.le_ceil ((bytes : ℚ) / bytesInMb)
  rwa [div_le_iff₀ (by norm_num [bytesInMb])] at hc

/-- What is 1.2 times as large in decimal megabytes as another size in binary ones has more bytes. -/
theorem fits_of_le {bytes} {n : Int} (h : (ceilMb bytes : ℚ) * (12 / 10) ≤ n) : (bytes : Int) ≤ decimalBytes n := by
  have hb := le_ceilMb bytes
  have hn : (0 : ℚ) ≤ ceilMb bytes := by
    exact_mod_cast Int.ceil_nonneg (by positivity)
  have hrat : (bytes : ℚ) ≤ n * 10 ^ 6 := by
    calc (bytes : ℚ) ≤ ceilMb bytes * bytesInMb := hb
      _ = ceilMb bytes * 1048576 := by norm_num [bytesInMb]
      _ ≤ ceilMb bytes * (12 / 10) * 10 ^ 6 := by linarith
      _ ≤ n * 10 ^ 6 := by linarith
  exact_mod_cast hrat

/-- The volume is aligned, it is the least size that is large enough up to the alignment, and each of the objects fits
into it. -/
theorem fetch_volume_sufficient (src : S3Source) {sizes : List Nat} (hsrc : src.Fetches sizes) :
    ∃ info required, s3EstimateSize src = .ok info ∧
      IsLeast {m : Int | (6 / 5 : ℚ) * ceilMb (sizes.foldl max 0) ≤ m ∧ (1 / 10 : ℚ) * ceilMb sizes.sum ≤ m} required ∧
      4 ∣ getVolumeSize info ∧ required ≤ getVolumeSize info ∧ getVolumeSize info < required + 4 ∧
      ∀ size ∈ sizes, (size : Int) ≤ decimalBytes (getVolumeSize info) := by
  obtain ⟨info, hi, ht, hmax⟩ := s3EstimateSize_ok hsrc
  obtain ⟨ha, hle, hlt⟩ := @align_spec
    ⌈max ((ceilMb info.max_size : ℚ) * (12 / 10)) ((ceilMb info.total_size : ℚ) * (1 / 10))⌉ volumeSizeAlign (by decide)
  have hr := Int.le_ceil (max ((ceilMb info.max_size : ℚ) * (12 / 10)) ((ceilMb info.total_size : ℚ) * (1 / 10)))
  rw [max_le_iff] at hr
  refine ⟨info, _, hi, ⟨?_, ?_⟩, ha, hle, hlt, fun size hs => ?_⟩
  · rw [← ht, ← hmax]
    exact ⟨by linarith [hr.1], by linarith [hr.2]⟩
  · rintro m ⟨hl, hte⟩
    rw [← ht] at hte
    rw [← hmax] at hl
    exact Int.ceil_le.2 (max_le (by linarith) (by linarith))
  · have hl : size ≤ info.max_size := by
      rw [hmax]
      exact (le_foldl_max sizes 0).2 size hs
    have hf : (info.max_size : Int) ≤ decimalBytes (getVolumeSize info) := by
      refine fits_of_le (hr.1.trans ?_)
      exact_mod_cast hle
    omega

/-- A folder with a large object, a small one and an empty one. -/
theorem fetch_volume_of_folder : ∃ info required,
    s3EstimateSize ⟨.error "Not Found", .ok [5000000, 0, 70000000]⟩ = .ok info ∧
      IsLeast {m : Int | (6 / 5 : ℚ) * ceilMb ([5000000, 0, 70000000].foldl max 0) ≤ m ∧
        (1 / 10 : ℚ) * ceilMb [5000000, 0, 70000000].sum ≤ m} required ∧
      4 ∣ getVolumeSize info ∧ required ≤ getVolumeSize info ∧ getVolumeSize info < required + 4 ∧
      ∀ size ∈ ([5000000, 0, 70000000] : List Nat), (size : Int) ≤ decimalBytes (getVolumeSize info) :=
  fetch_volume_sufficient ⟨.error "Not Found", .ok [5000000, 0, 70000000]⟩ (.inr ⟨nofun, rfl⟩)

example : getVolumeSize ⟨75000000, 2, 70000000⟩ = 84 := by
  decide +kernel

end BenchmarkAi.Fetcher
