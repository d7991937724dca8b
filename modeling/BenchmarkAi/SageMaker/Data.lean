import BenchmarkAi.Events
import BenchmarkAi.Lib.Environ
import BenchmarkAi.Lib.Words
import Mathlib.Data.List.Dedup
import Mathlib.Data.List.Perm.Subperm
import Mathlib.Data.Rat.Floor
import Mathlib.Tactic.Linarith
import Mathlib.Tactic.NormNum
/-!
# The data of a training job

What `SageMakerExecutionEngine.run` tells the estimator about the data sets: the size of the volume
of the training job, and the channels under which it finds them. `training_volume_iff` and
`channels_iff` say for which data sets these are as they should be. The safety factor is a rational
here.
-/

open Lib List

namespace BenchmarkAi.SageMaker

/-! ## The volume -/

def safetyFactor : ℚ := 11 / 10

def bytesInGb : Nat := 1024 ^ 3

def totalSizes (datasets : List DownloadableContent) : Option (List Nat) :=
  datasets.mapM fun dataset => dataset.size_info.map (·.total_size)

def ceilGb (bytes : Nat) : Int := ⌈(bytes : ℚ) / bytesInGb⌉

/-- `_estimate_total_gb`. The number is not negative, so that `int` rounds it down. -/
def estimateTotalGb (datasets : List DownloadableContent) : Option Int :=
  (totalSizes datasets).map fun sizes => ⌊safetyFactor * ceilGb sizes.sum⌋

def trainVolumeSize (train_volume_size : Int) (datasets : List DownloadableContent) : Option Int :=
  (estimateTotalGb datasets).map (max train_volume_size)

/-- The volume has the margin over all data sets, and is not smaller than the estimator wants it. -/
def HasMargin (train_volume_size : Int) (datasets : List DownloadableContent) (total : Nat) : Prop :=
  ∃ size, trainVolumeSize train_volume_size datasets = some size ∧
    (11 / 10 : ℚ) * ((total : ℚ) / 1024 ^ 3) ≤ size ∧ train_volume_size ≤ size

/-- What is rounded down in the end. -/
theorem floor_safety (gb : Int) : 10 * ⌊safetyFactor * gb⌋ = 11 * gb - gb % 10 := by
  have hf := Int.floor_le (safetyFactor * gb)
  have hlt := Int.lt_floor_add_one (safetyFactor * gb)
  generalize ⌊safetyFactor * gb⌋ = n at hf hlt
  rw [safetyFactor] at hf hlt
  have hle : (10 * n : ℚ) ≤ 11 * gb := by linarith
  have hgt : (11 * gb : ℚ) < 10 * n + 10 := by linarith
  have hle' : 10 * n ≤ 11 * gb := by exact_mod_cast hle
  have hgt' : 11 * gb < 10 * n + 10 := by exact_mod_cast hgt
  omega

theorem margin_iff (total : Nat) (n : Int) :
    (11 / 10 : ℚ) * ((total : ℚ) / 1024 ^ 3) ≤ n ↔ 11 * (total : Int) ≤ 10 * bytesInGb * n := by
  have hrat : (11 / 10 : ℚ) * ((total : ℚ) / 1024 ^ 3) ≤ n ↔ (11 * total : ℚ) ≤ 10 * 1024 ^ 3 * n := by
    constructor <;> intro hle <;> linarith
  rw [hrat]
  exact_mod_cast Iff.rfl

/-- The margin is there exactly if the estimator's own volume has it, or if rounding up the gigabytes
adds as much as rounding down after the factor takes away. -/
theorem training_volume_iff (train_volume_size : Int) {datasets : List DownloadableContent} {sizes : List Nat}
    (hsizes : totalSizes datasets = some sizes) :
    HasMargin train_volume_size datasets sizes.sum ↔ 11 * (sizes.sum : Int) ≤ 10 * bytesInGb * train_volume_size ∨
        bytesInGb * (ceilGb sizes.sum % 10) ≤ 11 * (bytesInGb * ceilGb sizes.sum - sizes.sum) := by
  have hf := floor_safety (ceilGb sizes.sum)
  have hs : trainVolumeSize train_volume_size datasets =
      some (max train_volume_size ⌊safetyFactor * ceilGb sizes.sum⌋) := by
    rw [trainVolumeSize, estimateTotalGb, hsizes]
    rfl
  generalize ⌊safetyFactor * ceilGb sizes.sum⌋ = n at hf hs
  simp only [HasMargin, hs, Option.some.injEq, exists_eq_left', margin_iff, le_max_left, and_true]
  rw [bytesInGb] at *
  rcases le_total train_volume_size n with hle | hle
  · omega
  · omega

def sizedDataset (bytes : Nat) : DownloadableContent :=
  { src := "http://example.com/data", path := "/data", size_info := some ⟨bytes, 1, bytes⟩ }

theorem training_volume_ten_gb :
    HasMargin 1 [sizedDataset (4 * 1024 ^ 3), sizedDataset (6 * 1024 ^ 3)] [4 * 1024 ^ 3, 6 * 1024 ^ 3].sum :=
  (training_volume_iff 1 rfl).2 (.inr (by decide +kernel))

/-- 31 GiB and the margin are 34.1 GiB, and the volume has 34 GiB. -/
theorem training_volume_too_small : trainVolumeSize 30 [sizedDataset (31 * 1024 ^ 3)] = some 34 ∧
    ¬HasMargin 30 [sizedDataset (31 * 1024 ^ 3)] (31 * 1024 ^ 3) := by
  have hs : trainVolumeSize 30 [sizedDataset (31 * 1024 ^ 3)] = some 34 := by decide +kernel
  refine ⟨hs, ?_⟩
  rintro ⟨size, hset, hm, -⟩
  obtain rfl := Option.some.inj (hs.symm.trans hset)
  norm_num at hm

/-! ## Channels -/

/-- `_get_dataset_id`; an empty id counts as none. -/
def getDatasetId (inx : Nat) (id : Option String) : String := if truthy id then id.getD "" else "src" ++ toString inx

def channelNames (datasets : List DownloadableContent) : List String :=
  datasets.mapIdx fun inx dataset => getDatasetId inx dataset.id

def getEstimatorData (s3_nodata : String) (datasets : List DownloadableContent) : Dict (Option String) :=
  let data := Dict.ofFields (datasets.mapIdx fun inx dataset => (getDatasetId inx dataset.id, dataset.dst))
  if data.entries = [] then data.set (getDatasetId 0 none) (some s3_nodata) else data

/-- Each data set has a channel of its own with its destination, under its id if it has one, and there are no other
channels. -/
def OwnChannels (datasets : List DownloadableContent) (data : Dict (Option String)) : Prop :=
  ∃ names : List String, names.length = datasets.length ∧ names.Nodup ∧
    (∀ name, name ∈ data.entries.map Prod.fst ↔ name ∈ names) ∧
    ∀ (inx : Nat) (name : String) (dataset : DownloadableContent), names[inx]? = some name → datasets[inx]? = some dataset →
      data.get? name = some dataset.dst ∧ (truthy dataset.id = true → dataset.id = some name)

/-- No id is the id of another dataset, nor the name that is made for one without an id. -/
def IdsApart (datasets : List DownloadableContent) : Prop :=
  ∀ (i j : Nat) (dataset other : DownloadableContent), i ≠ j → datasets[i]? = some dataset → datasets[j]? = some other →
    truthy dataset.id = true → dataset.id ≠ if truthy other.id then other.id else some ("src" ++ toString j)

theorem src_injective {i j : Nat} (h : "src" ++ toString i = "src" ++ toString j) : i = j :=
  Words.toString_inj ((String.append_right_inj "src").1 h)

theorem getDatasetId_eq {inx id} (h : truthy id = true) : id = some (getDatasetId inx id) := by
  rw [getDatasetId, if_pos h]
  cases id with
  | none => cases h
  | some id => rfl

/-- Two fallback names are never the same, so that an id has a part in every collision. -/
theorem nodup_channelNames_iff (datasets : List DownloadableContent) : (channelNames datasets).Nodup ↔ IdsApart datasets := by
  have hna (id : Option String) (inx : Nat) :
      some (getDatasetId inx id) = if truthy id then id else some ("src" ++ toString inx) := by
    split
    · rename_i hid
      exact (getDatasetId_eq hid).symm
    · rename_i hid
      rw [getDatasetId, if_neg hid]
  have hget (inx : Nat) : (channelNames datasets)[inx]? = datasets[inx]?.map fun dataset => getDatasetId inx dataset.id :=
    getElem?_mapIdx
  constructor
  · intro hn i j dataset other hij hi hj hid heq
    rw [← hna, @getDatasetId_eq i _ hid] at heq
    have hs : (channelNames datasets)[i]? = (channelNames datasets)[j]? := by
      rw [hget, hget, hi, hj]
      exact heq
    have hlt : i < (channelNames datasets).length := by
      rw [channelNames, length_mapIdx]
      exact (List.getElem?_eq_some_iff.1 hi).1
    exact hij ((getElem?_inj hlt hn).1 hs)
  · intro ha
    refine nodup_iff_getElem?_ne_getElem?.2 fun i j hij hj heq => ?_
    rw [channelNames, length_mapIdx] at hj
    rw [hget, hget, getElem?_eq_getElem (by omega), getElem?_eq_getElem hj, Option.map_some, Option.map_some,
      hna, hna] at heq
    have hi := getElem?_eq_getElem (by omega : i < datasets.length)
    have hj' := getElem?_eq_getElem hj
    generalize datasets[i] = dataset at heq hi
    generalize datasets[j] = other at heq hj'
    by_cases hid : truthy dataset.id = true
    · rw [if_pos hid] at heq
      exact ha i j _ _ (by omega) hi hj' hid heq
    · by_cases hid' : truthy other.id = true
      · rw [if_pos hid'] at heq
        exact ha j i _ _ (by omega) hj' hi hid' heq.symm
      · rw [if_neg hid, if_neg hid', Option.some.injEq] at heq
        have := src_injective heq
        omega

theorem keys_ofFields (fs : List (String × Option String)) (k : String) :
    k ∈ (Dict.ofFields fs).entries.map Prod.fst ↔ k ∈ fs.map Prod.fst := by
  have hget := Dict.get?_ofFields fs k
  have hn := congrArg (· = none) hget
  simp only [Dict.get?, lookup_eq_none, map_reverse, mem_reverse, eq_iff_iff] at hn
  exact not_iff_not.1 hn

section Channels
variable (s3_nodata : String) {datasets : List DownloadableContent}

def channelFields (datasets : List DownloadableContent) : List (String × Option String) :=
  datasets.mapIdx fun inx dataset => (getDatasetId inx dataset.id, dataset.dst)

theorem keys_channelFields (datasets : List DownloadableContent) :
    (channelFields datasets).map Prod.fst = channelNames datasets := by
  apply ext_getElem?
  intro inx
  simp [channelFields, channelNames, Function.comp_def]

theorem getEstimatorData_eq (hne : datasets ≠ []) : getEstimatorData s3_nodata datasets = Dict.ofFields (channelFields datasets) := by
  refine if_neg fun he => ?_
  have hno (name : String) : name ∉ channelNames datasets := by
    rw [← keys_channelFields, ← keys_ofFields]
    exact fun hmem => by simp [channelFields, he] at hmem
  obtain ⟨dataset, rest, rfl⟩ := exists_cons_of_ne_nil hne
  exact hno _ (by rw [channelNames, mapIdx_cons]; exact mem_cons_self)

/-- Each data set has its channel exactly if no id of a data set is another one's, be it given or made up. -/
theorem channels_iff (hne : datasets ≠ []) :
    OwnChannels datasets (getEstimatorData s3_nodata datasets) ↔ IdsApart datasets := by
  have hk (name : String) : name ∈ (Dict.ofFields (channelFields datasets)).entries.map Prod.fst ↔
      name ∈ channelNames datasets := by
    rw [keys_ofFields, keys_channelFields]
  rw [← nodup_channelNames_iff, getEstimatorData_eq s3_nodata hne]
  constructor
  · -- as many names as data sets are left without repetitions
    rintro ⟨names, hl, hn, hmem, -⟩
    have hp : names.Perm (channelNames datasets).dedup := by
      refine (perm_ext_iff_of_nodup hn (nodup_dedup _)).2 fun name => ?_
      rw [← hmem, hk, mem_dedup]
    have hs : (channelNames datasets).dedup = channelNames datasets := by
      refine (dedup_sublist _).eq_of_length ?_
      rw [← hp.length_eq, hl, channelNames, length_mapIdx]
    exact dedup_eq_self.1 hs
  · intro hn
    refine ⟨channelNames datasets, length_mapIdx, hn, hk, fun inx name dataset hna hd => ?_⟩
    obtain rfl : getDatasetId inx dataset.id = name := by
      rw [channelNames, getElem?_mapIdx, hd] at hna
      exact Option.some.inj hna
    refine ⟨?_, fun hid => getDatasetId_eq hid⟩
    have hf : (getDatasetId inx dataset.id, dataset.dst) ∈ channelFields datasets := by
      apply @mem_of_getElem? _ _ inx
      rw [channelFields, getElem?_mapIdx, hd]
      rfl
    rw [Dict.get?_ofFields]
    refine (mem_entries_iff_lookup ?_).1 (mem_reverse.2 hf)
    rw [map_reverse, nodup_reverse, keys_channelFields]
    exact hn

end Channels

def fetchedDataset (id : Option String) (dst : String) : DownloadableContent :=
  { src := "http://example.com/data", path := "/data", id, dst := some dst }

theorem channels_of_two : OwnChannels [fetchedDataset (some "train") "s3://bucket/a", fetchedDataset none "s3://bucket/b"]
    (getEstimatorData "s3://bucket/nodata"
      [fetchedDataset (some "train") "s3://bucket/a", fetchedDataset none "s3://bucket/b"]) := by
  refine (channels_iff _ (cons_ne_nil _ _)).2 ((nodup_channelNames_iff _).1 ?_)
  decide

/-- The id of the first data set is the name that the second one gets. -/
theorem channel_of_first_lost : (getEstimatorData "s3://bucket/nodata"
    [fetchedDataset (some "src1") "s3://bucket/a", fetchedDataset none "s3://bucket/b"]).entries =
      [("src1", some "s3://bucket/b")] ∧
    ¬OwnChannels [fetchedDataset (some "src1") "s3://bucket/a", fetchedDataset none "s3://bucket/b"]
      (getEstimatorData "s3://bucket/nodata"
        [fetchedDataset (some "src1") "s3://bucket/a", fetchedDataset none "s3://bucket/b"]) := by
  have he : (getEstimatorData "s3://bucket/nodata"
      [fetchedDataset (some "src1") "s3://bucket/a", fetchedDataset none "s3://bucket/b"]).entries =
        [("src1", some "s3://bucket/b")] := by decide +kernel
  refine ⟨he, ?_⟩
  rintro ⟨names, hl, hn, hmem, -⟩
  have hsub : names ⊆ ["src1"] := by
    intro name hna
    have hkey := (hmem name).2 hna
    rwa [he] at hkey
  have hle := (hn.subperm hsub).length_le
  rw [hl] at hle
  exact absurd hle (by decide)

end BenchmarkAi.SageMaker
