import BenchmarkAi.FetcherJob.Digests
import Mathlib.Data.List.TakeWhile
/-!
# A transfer that is repeated

A second `transfer_to_s3` should find what the first one has left. With the expected digest it looks
for the tag that the first one has put. Without, it looks for the ETag that `calculate_md5_and_etag`
predicts, so the question is whether the uploader gives the object that ETag.
-/

open List

namespace BenchmarkAi.FetcherJob

/-! ## The uploader -/

/-- `multipart_threshold` and `multipart_chunksize` of boto3 are both 8 MiB. -/
def multipartBytes : Nat := 8 * 1024 * 1024

/-- The ETag of what `upload_fileobj` sends: a small content goes in one request, any other one in parts. -/
def uploadEtag (h : Md5) (content : Bytes) : String :=
  if content.length < multipartBytes then h.md5 content
  else h.joined (readChunks multipartBytes content.length content)

/-- A hexadecimal digest has no dash. -/
def NoDash (h : Md5) : Prop := ∀ digest, '-' ∉ (h.hex digest).toList

theorem length_readChunks_le_one {size} (hs : 1 ≤ size) (content : Bytes) :
    (readChunks size content.length content).length ≤ 1 ↔ content.length ≤ size := by
  have hc := chunks_readChunks hs (Nat.le_refl content.length)
  generalize readChunks size content.length content = chunks at hc
  cases chunks with
  | nil => simp [chunks_nil_iff.1 hc]
  | cons chunk chunks =>
    cases chunks with
    | nil =>
      have hl := hc.last chunk rfl
      rw [← hc.flatten]
      simpa using hl.2
    | cons other chunks =>
      have hf : chunk.length = size := hc.full chunk (by simp)
      have hne : (other :: chunks).flatten ≠ [] := by
        have hl := hc.last _ (getLast?_eq_some_getLast (cons_ne_nil chunk (other :: chunks)))
        intro hnil
        exact hl.1 (flatten_eq_nil_iff.1 hnil _ (getLast_mem _))
      have hpos := length_pos_iff.2 hne
      rw [← hc.flatten, flatten_cons, length_append, length_cons, length_cons]
      omega

/-- The uploader gives the predicted ETag, except to a content that just fills one part: it goes as the
only part of a multipart upload. -/
theorem uploadEtag_eq_iff {h} (hd : NoDash h) (content : Bytes) :
    uploadEtag h content = predictedEtag h content ↔ content.length ≠ multipartBytes := by
  have hone := length_readChunks_le_one (by decide : 1 ≤ multipartBytes) content
  have hp : predictedEtag h content = if content.length ≤ multipartBytes then h.md5 content
      else h.joined (readChunks multipartBytes content.length content) := by
    rw [predictedEtag, calculate_chunks content (by decide : 1 ≤ s3MaxChunkBytes)]
    simp only [← hone]
    rfl
  rw [uploadEtag, hp]
  rcases Nat.lt_trichotomy content.length multipartBytes with hlt | heq | hgt
  · rw [if_pos hlt, if_pos (Nat.le_of_lt hlt)]
    exact ⟨fun _ => Nat.ne_of_lt hlt, fun _ => rfl⟩
  · rw [if_neg (by omega), if_pos (by omega)]
    refine iff_of_false (fun he => hd (h.digest content) ?_) (not_not.2 heq)
    rw [← Md5.md5, ← he, Md5.joined]
    simp
  · rw [if_neg (by omega), if_neg (by omega)]
    exact ⟨fun _ => by omega, fun _ => rfl⟩

/-! ## What a call looks for -/

section Looks
variable {s3 : S3} {t : Transfer} {content : Bytes} {md5 : String} {dst : Option Stored} {o : Stored}

/-- The object says that it has the digest: by its first MD5 tag, or, where it has none, by its ETag. -/
def HasMd5 (s3 : S3) (md5 : String) (dst : Option Stored) : Prop :=
  ∃ o, dst = some o ∧ (o.md5Tag? = some md5 ∨ o.md5Tag? = none ∧ s3.etag o.content o.parts = md5)

/-- The call comes to `upload_to_s3`. -/
def Transfer.uploads (t : Transfer) (s3 : S3) (dst : Option Stored) : Prop :=
  t.found s3 dst = .ok false ∧ ∃ content, t.download = .ok content ∧
    (truthy t.md5 = true → s3.md5 content = pyStr t.md5) ∧
    checkS3ForEtag s3 dst (predictedEtag s3.toMd5 content) t.getObjectAgain = .ok false

/-- What a call that returns has done: it has found the expected digest, or the predicted ETag, or it has
uploaded the content; in the last two cases the object has the digest as its tag. -/
inductive Returned (s3 : S3) (t : Transfer) (content : Bytes) (dst : Option Stored) : Option Stored → Prop
  | skipped (h : Skips s3 t dst) : Returned s3 t content dst dst
  | kept {old : Stored} (hs : ¬ Skips s3 t dst) (hg : t.getObjectAgain = .ok) (hdst : dst = some old)
      (hp : s3.etag old.content old.parts = predictedEtag s3.toMd5 content) :
      Returned s3 t content dst (some { old with tags := [(md5Tag, s3.md5 content)] })
  | uploaded (hs : ¬ Skips s3 t dst) (hg : ¬ (t.getObjectAgain = .ok ∧ Predicted s3 content dst)) :
      Returned s3 t content dst (some ⟨content, t.parts, [(md5Tag, s3.md5 content)]⟩)

theorem returned_of_ok (hd : t.download = .ok content) (hok : (transferToS3 s3 t dst).2 = .ok ()) :
    Returned s3 t content dst (transferToS3 s3 t dst).1 := by
  have h := transfers_transferToS3 s3 t dst
  generalize transferToS3 s3 t dst = r at h hok ⊢
  cases h with
  | unanswered | failed | mismatch => cases hok
  | skipped _ hs => exact .skipped hs
  | stored _ hs hd' _ h =>
    obtain rfl := Except.ok.inj (hd'.symm.trans hd)
    cases h with
    | unanswered | notUploaded => cases hok
    | kept hg hdst hp =>
      rw [tagging_ok hok]
      exact .kept hs hg hdst hp
    | uploaded _ hn =>
      rw [tagging_ok hok]
      exact .uploaded hs hn

end Looks

/-! ## The second transfer -/

section Quiet
variable {s3 : S3} {content : Bytes} {dst : Option Stored}

/-- A call uploads nothing, ends well and leaves the content of the object. -/
def Transfer.quiet (t : Transfer) (s3 : S3) (dst : Option Stored) : Prop :=
  ¬ t.uploads s3 dst ∧ (transferToS3 s3 t dst).2 = .ok () ∧ (transferToS3 s3 t dst).1.map (·.content) = dst.map (·.content)

/-- A second transfer of the content is quiet. -/
def Quiet (s3 : S3) (content : Bytes) (md5 : Option String) (dst : Option Stored) : Prop :=
  Transfer.quiet { md5, download := .ok content } s3 dst

theorem found_of_working {t : Transfer} (ht : t.getTagging = .ok) (hg : t.getObject = .ok) :
    ∃ there, t.found s3 dst = .ok there := by
  rw [Transfer.found, ht, hg]
  split
  · cases dst with
    | none => exact ⟨false, rfl⟩
    | some o =>
      rw [checkS3ForMd5]
      split <;> exact ⟨_, rfl⟩
  · exact ⟨false, rfl⟩

/-- If all its operations are answered, a call with the right digest or with none is quiet exactly if it finds
the digest it expects or the ETag that it predicts. -/
theorem quiet_iff {t : Transfer} (hd : t.download = .ok content) (ho : t.toOperations = {})
    (hm : truthy t.md5 = true → s3.md5 content = pyStr t.md5) :
    t.quiet s3 dst ↔ Skips s3 t dst ∨ Predicted s3 content dst := by
  have hga : t.getObjectAgain = .ok := congrArg Operations.getObjectAgain ho
  have hput : t.putTagging = .ok := congrArg Operations.putTagging ho
  obtain ⟨found, hf⟩ := @found_of_working s3 dst t (congrArg Operations.getTagging ho) (congrArg Operations.getObject ho)
  rw [Transfer.quiet, Transfer.uploads, transferToS3, hf, hd]
  cases found with
  | true =>
    refine iff_of_true ⟨fun h => ?_, rfl, rfl⟩ (.inl (found_iff.1 hf))
    cases h.1
  | false =>
    have hs : ¬ Skips s3 t dst := fun h => by cases hf.symm.trans (found_iff.2 h)
    have hp : checkS3ForEtag s3 dst (predictedEtag s3.toMd5 content) .ok = .ok true ↔ Predicted s3 content dst :=
      checkS3ForEtag_iff.trans (and_iff_right rfl)
    dsimp only
    rw [or_iff_right hs, ← hp, if_neg fun h => mismatch_iff.1 h hm, Transfer.store, hga]
    cases hc : checkS3ForEtag s3 dst (predictedEtag s3.toMd5 content) .ok with
    | error e => cases hc
    | ok there =>
      cases there with
      | false => exact iff_of_false (fun h => h.1 ⟨rfl, content, rfl, hm, hc⟩) (by simp)
      | true =>
        obtain ⟨-, o, rfl, -⟩ := checkS3ForEtag_iff.1 hc
        refine iff_of_true ⟨?_, ?_⟩ rfl
        · rintro ⟨-, c, hcc, -, hno⟩
          cases hcc
          cases hc.symm.trans hno
        · rw [predictedEtag] at hc
          rw [hc, hput]
          exact ⟨rfl, rfl⟩

theorem hasMd5_of_tag {md5 parts} : HasMd5 s3 md5 (some ⟨content, parts, [(md5Tag, md5)]⟩) := ⟨_, rfl, .inl rfl⟩

end Quiet

/-- After a transfer that has ended well, a second one without a digest is quiet if and only if the object was there
with the predicted ETag and was left alone, or a content was uploaded that does not just fill one part. A second one
with the right digest is quiet if and only if the object was there with that digest or with the predicted ETag, or the
first one did not leave it alone for another digest. -/
theorem repeated_transfer_iff {s3 : S3} (hdash : NoDash s3.toMd5) {first : Transfer} {content : Bytes}
    {dst : Option Stored} (hdownload : first.download = .ok content) (hmd5 : s3.md5 content ≠ "")
    (hparts : s3.etag content first.parts = uploadEtag s3.toMd5 content)
    (hok : (transferToS3 s3 first dst).2 = .ok ()) :
    (Quiet s3 content none (transferToS3 s3 first dst).1 ↔
      Predicted s3 content dst ∧ (Skips s3 first dst ∨ first.getObjectAgain = .ok) ∨
        ¬ Skips s3 first dst ∧ content.length ≠ 8 * 1024 * 1024) ∧
    (Quiet s3 content (some (s3.md5 content)) (transferToS3 s3 first dst).1 ↔
      HasMd5 s3 (s3.md5 content) dst ∨ Predicted s3 content dst ∨ ¬ Skips s3 first dst) := by
  have hskip (dst : Option Stored) :
      Skips s3 { md5 := some (s3.md5 content), download := .ok content } dst ↔ HasMd5 s3 (s3.md5 content) dst := by
    simp [Skips, HasMd5, truthy, pyStr, hmd5]
  have hplain (dst : Option Stored) : ¬ Skips s3 { download := .ok content } dst := by
    intro h
    cases h.1
  rw [Quiet, Quiet, quiet_iff rfl rfl (by simp [truthy]), quiet_iff rfl rfl fun _ => rfl, hskip, or_iff_right (hplain _)]
  have hre := returned_of_ok hdownload hok
  generalize (transferToS3 s3 first dst).1 = dst' at hre ⊢
  cases hre with
  | skipped h => simp [h]
  | @kept old hs hg hdst hp =>
    have hpre : Predicted s3 content dst := ⟨old, hdst, hp⟩
    exact ⟨iff_of_true ⟨_, rfl, hp⟩ (.inl ⟨hpre, .inr hg⟩), iff_of_true (.inl hasMd5_of_tag) (.inr (.inl hpre))⟩
  | uploaded hs hg =>
    refine ⟨?_, iff_of_true (.inl hasMd5_of_tag) (.inr (.inr hs))⟩
    have hup : Predicted s3 content (some ⟨content, first.parts, [(md5Tag, s3.md5 content)]⟩) ↔
        content.length ≠ multipartBytes := by
      rw [← uploadEtag_eq_iff hdash, ← hparts]
      simp [Predicted]
    rw [hup, and_iff_right hs, or_iff_right fun h => hg ⟨h.2.resolve_left hs, h.1⟩]
    rfl

/-! ## A store with the ETags of the uploader -/

theorem noDash_plainMd5 : NoDash plainMd5 := fun digest => dash_not_mem digest

/-- Up to a dash, both ETags are the digest, if the digest is the content. -/
theorem takeWhile_etag (content : Bytes) :
    (uploadEtag plainMd5 content).toList.takeWhile (· ≠ '-') = (plainMd5.md5 content).toList ∧
      (predictedEtag plainMd5 content).toList.takeWhile (· ≠ '-') = (plainMd5.md5 content).toList := by
  have hall : ∀ c ∈ (plainMd5.md5 content).toList, (decide (c ≠ '-')) = true := fun c hc =>
    decide_eq_true fun h => dash_not_mem content (h ▸ hc)
  have hj : (plainMd5.joined (readChunks multipartBytes content.length content)).toList.takeWhile (· ≠ '-') =
      (plainMd5.md5 content).toList := by
    have hfl : ((readChunks multipartBytes content.length content).map plainMd5.digest).flatten = content := by
      rw [show plainMd5.digest = id from rfl, map_id]
      exact flatten_readChunks (by decide) _ _ (Nat.le_refl _)
    rw [Md5.joined, hfl, String.toList_append, String.toList_append, append_assoc, takeWhile_append_of_pos hall]
    simp
  constructor
  · unfold uploadEtag
    split
    · exact takeWhile_eq_self_iff.2 hall
    · exact hj
  · rw [predictedEtag, calculate_chunks content (by decide : 1 ≤ s3MaxChunkBytes)]
    dsimp only
    split
    · exact takeWhile_eq_self_iff.2 hall
    · exact hj

theorem content_of_etag {content other : Bytes} {etag : String}
    (h : etag.toList.takeWhile (· ≠ '-') = (plainMd5.md5 content).toList)
    (h' : etag.toList.takeWhile (· ≠ '-') = (plainMd5.md5 other).toList) : content = other :=
  plainMd5_injective (String.toList_injective (h.symm.trans h'))

def uploadedS3 : S3 where
  toMd5 := plainMd5
  etag content _ := uploadEtag plainMd5 content
  same_content content _ other h := by
    have hu := (takeWhile_etag content).1
    rw [h] at hu
    exact content_of_etag hu (takeWhile_etag other).2
  same_object content _ other _ h := by
    have hu := (takeWhile_etag content).1
    rw [h] at hu
    exact content_of_etag hu (takeWhile_etag other).1

/-- Two bytes replace an older object, and are uploaded once. -/
theorem repeated_transfer_small : let dst := some { content := [7], parts := 1, tags := [(md5Tag, "7")] }
    let first : Transfer := { md5 := some "12", download := .ok [1, 2] }
    first.uploads uploadedS3 dst ∧ (transferToS3 uploadedS3 first dst).2 = .ok () ∧
      Quiet uploadedS3 [1, 2] none (transferToS3 uploadedS3 first dst).1 ∧
      Quiet uploadedS3 [1, 2] (some "12") (transferToS3 uploadedS3 first dst).1 := by
  intro dst first
  have hno : ¬ Skips uploadedS3 first dst := fun h => by
    cases (found_iff.2 h : _ = Except.ok true)
  obtain ⟨hn, hm⟩ := @repeated_transfer_iff uploadedS3 noDash_plainMd5 first [1, 2] dst rfl (by decide) rfl rfl
  exact ⟨⟨rfl, _, rfl, fun _ => rfl, rfl⟩, rfl, hn.2 (.inr ⟨hno, by decide⟩), hm.2 (.inr (.inr hno))⟩

theorem uploads_twice {content : Bytes} (hl : content.length = multipartBytes) :
    let first : Transfer := { download := .ok content }
    first.uploads uploadedS3 none ∧ (transferToS3 uploadedS3 first none).2 = .ok () ∧
      first.uploads uploadedS3 (transferToS3 uploadedS3 first none).1 := by
  intro first
  have hu : uploadEtag plainMd5 content ≠ predictedEtag plainMd5 content := fun h =>
    (uploadEtag_eq_iff noDash_plainMd5 content).1 h hl
  exact ⟨⟨rfl, _, rfl, nofun, rfl⟩, rfl, rfl, _, rfl, nofun, congrArg Except.ok (decide_eq_false hu)⟩

/-- 8 MiB of zeros. -/
theorem full_part_uploaded_twice : let first : Transfer := { download := .ok (replicate (8 * 1024 * 1024) 0) }
    first.uploads uploadedS3 none ∧ (transferToS3 uploadedS3 first none).2 = .ok () ∧
      first.uploads uploadedS3 (transferToS3 uploadedS3 first none).1 :=
  uploads_twice length_replicate

end BenchmarkAi.FetcherJob
