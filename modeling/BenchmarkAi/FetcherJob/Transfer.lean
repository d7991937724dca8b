import BenchmarkAi.Events
/-!
# Transfer to S3

`transfer_to_s3` of the fetcher job with the parts of `bai_io_utils` it calls. A call
looks for the content at the destination (by the MD5 tag, by an ETag that is the MD5, by
the ETag computed from the download), uploads it if it has to, and tags it. Any operation
may fail: a `ClientError` is answered by the code, anything else ends the call. A write
that fails may have taken effect all the same.
-/

open List

namespace BenchmarkAi.FetcherJob

abbrev Bytes := List UInt8

/-! ## Digests -/

structure Md5 where
  digest : Bytes → Bytes
  hex : Bytes → String

def Md5.md5 (h : Md5) (content : Bytes) : String := h.hex (h.digest content)

structure DigestPair where
  md5 : String
  s3_etag : String
deriving DecidableEq, Repr

def s3MaxChunkBytes : Nat := 8 * 1024 * 1024

/-- `iter(lambda: fp.read(chunk_size), b"")`, with at most `fuel` reads. -/
def readChunks (chunk_size : Nat) : Nat → Bytes → List Bytes
  | 0, _ => []
  | fuel + 1, content =>
    if content.take chunk_size = [] then []
    else content.take chunk_size :: readChunks chunk_size fuel (content.drop chunk_size)

structure Digesting where
  global : Bytes := []
  md5s : List Bytes := []
  first : Bool := true

def Digesting.next (h : Md5) (d : Digesting) (data : Bytes) : Digesting :=
  if d.first then ⟨d.global ++ data, d.md5s ++ [h.digest (d.global ++ data)], false⟩
  else ⟨d.global ++ data, d.md5s ++ [h.digest data], false⟩

def calculateMd5AndEtag (h : Md5) (content : Bytes) (chunk_size : Nat := s3MaxChunkBytes) : DigestPair :=
  let d := (readChunks chunk_size content.length content).foldl (Digesting.next h) {}
  { md5 := h.md5 d.global
    s3_etag :=
      if 1 < d.md5s.length then h.md5 d.md5s.flatten ++ "-" ++ toString d.md5s.length else h.md5 d.global }

theorem flatten_readChunks {chunk_size} (hc : 0 < chunk_size) (fuel : Nat) (content : Bytes)
    (hf : content.length ≤ fuel) : (readChunks chunk_size fuel content).flatten = content := by
  induction fuel generalizing content with
  | zero =>
    obtain rfl : content = [] := eq_nil_of_length_eq_zero (Nat.le_zero.1 hf)
    rfl
  | succ fuel ih =>
    rw [readChunks]
    split
    · rename_i hnil
      rw [take_eq_nil_iff] at hnil
      exact (hnil.resolve_left (Nat.pos_iff_ne_zero.1 hc)).symm
    · rw [flatten_cons, ih]
      · exact take_append_drop _ _
      · rw [length_drop]
        omega

theorem global_foldl (h : Md5) (chunks : List Bytes) (d : Digesting) :
    (chunks.foldl (Digesting.next h) d).global = d.global ++ chunks.flatten := by
  induction chunks generalizing d with
  | nil => simp
  | cons data chunks ih =>
    rw [foldl_cons, ih, flatten_cons, ← append_assoc]
    congr 1
    unfold Digesting.next
    split <;> rfl

theorem calculate_md5 (h : Md5) (content : Bytes) : (calculateMd5AndEtag h content).md5 = h.md5 content := by
  unfold calculateMd5AndEtag
  dsimp only
  rw [global_foldl, flatten_readChunks (by decide) _ _ (Nat.le_refl _)]
  rfl

/-! ## One object in S3 -/

/-- The ETag of an object depends on its content and on the parts it was uploaded in.
Equal ETags mean equal contents. -/
structure S3 extends Md5 where
  etag : Bytes → Nat → String
  same_content : ∀ content parts other,
    etag content parts = (calculateMd5AndEtag toMd5 other).s3_etag → content = other
  same_object : ∀ content parts other otherParts, etag content parts = etag other otherParts → content = other

def S3.EtagIsMd5 (s3 : S3) (md5 : String) : Prop := ∀ content parts, s3.etag content parts = md5 → s3.md5 content = md5

structure Stored where
  content : Bytes
  parts : Nat
  tags : List (String × String) := []
deriving DecidableEq, Repr

inductive Raised
  | invalidDigestError
  | httpClientError
  | httpServerError
  | curlError
  | s3Error (message : String)
  | clientError
  /-- Any other exception; also the end of the process. -/
  | other (message : String)
deriving DecidableEq, Repr

inductive Reply
  | ok
  | clientError
  | other (message : String)
deriving DecidableEq, Repr

/-- How a write goes; one that fails may have been carried out. -/
inductive Write
  | ok
  | clientError (written : Bool)
  | other (message : String) (written : Bool)
deriving DecidableEq, Repr

def Write.takesEffect : Write → Bool
  | .ok => true
  | .clientError written | .other _ written => written

/-- The calls that write are wrapped: a `ClientError` becomes an `S3Error`. -/
def Write.wrapped : Write → Except Raised Unit
  | .ok => .ok ()
  | .clientError _ => .error (.s3Error "")
  | .other message _ => .error (.other message)

def md5Tag : String := "MD5"

def checkS3ForEtag (s3 : S3) (dst : Option Stored) (etag : String) : Reply → Except Raised Bool
  | .ok => .ok (dst.any fun o => s3.etag o.content o.parts = etag)
  | .clientError => .ok false
  | .other message => .error (.other message)

/-- `check_s3_for_md5`: the first MD5 tag decides, and without one the ETag. -/
def checkS3ForMd5 (s3 : S3) (dst : Option Stored) (md5 : String) (getTagging getObject : Reply) : Except Raised Bool :=
  match getTagging, dst with
  | .other message, _ => .error (.other message)
  | .clientError, _ => .ok false
  | .ok, none => .ok false
  | .ok, some o =>
    match (o.tags.filter (·.1 = md5Tag)).map (·.2) with
    | value :: _ => .ok (md5 = value)
    | [] => checkS3ForEtag s3 dst md5 getObject

def uploadToS3 (content : Bytes) (parts : Nat) (upload : Write) (dst : Option Stored) :
    Option Stored × Except Raised Unit :=
  (if upload.takesEffect then some ⟨content, parts, []⟩ else dst, upload.wrapped)

/-- `update_s3_hash_tagging`: the tag set is replaced. There has to be an object. -/
def updateS3HashTagging (md5 : String) (tagging : Write) (dst : Option Stored) : Option Stored × Except Raised Unit :=
  match dst with
  | none => (none, .error (.s3Error ""))
  | some o => (some (if tagging.takesEffect then { o with tags := [(md5Tag, md5)] } else o), tagging.wrapped)

/-! ## `transfer_to_s3` -/

structure Operations where
  getTagging : Reply := .ok
  getObject : Reply := .ok
  getObjectAgain : Reply := .ok
  upload : Write := .ok
  parts : Nat := 0
  putTagging : Write := .ok

structure Transfer extends Operations where
  md5 : Option String := none
  download : Except Raised Bytes

/-- The look for the expected digest. An empty one counts as none. -/
def Transfer.found (t : Transfer) (s3 : S3) (dst : Option Stored) : Except Raised Bool :=
  if truthy t.md5 then checkS3ForMd5 s3 dst (pyStr t.md5) t.getTagging t.getObject else .ok false

def Transfer.store (t : Transfer) (s3 : S3) (content : Bytes) (dst : Option Stored) : Option Stored × Except Raised Unit :=
  let hash_pair := calculateMd5AndEtag s3.toMd5 content
  match checkS3ForEtag s3 dst hash_pair.s3_etag t.getObjectAgain with
  | .error e => (dst, .error e)
  | .ok true => updateS3HashTagging hash_pair.md5 t.putTagging dst
  | .ok false =>
    match uploadToS3 content t.parts t.upload dst with
    | (dst, .error e) => (dst, .error e)
    | (dst, .ok ()) => updateS3HashTagging hash_pair.md5 t.putTagging dst

def transferToS3 (s3 : S3) (t : Transfer) (dst : Option Stored) : Option Stored × Except Raised Unit :=
  match t.found s3 dst with
  | .error e => (dst, .error e)
  | .ok true => (dst, .ok ())
  | .ok false =>
    match t.download with
    | .error e => (dst, .error e)
    | .ok content =>
      if truthy t.md5 && (calculateMd5AndEtag s3.toMd5 content).md5 ≠ pyStr t.md5 then (dst, .error .invalidDigestError)
      else t.store s3 content dst

/-! ## What a call does -/

def Reply.answered : Reply → Bool
  | .other _ => false
  | _ => true

/-- The first MD5 tag. -/
def Stored.md5Tag? (o : Stored) : Option String := ((o.tags.filter (·.1 = md5Tag)).map (·.2)).head?

/-- The ETag that the code looks for. -/
def predictedEtag (h : Md5) (content : Bytes) : String := (calculateMd5AndEtag h content).s3_etag

/-- The object has the ETag that is predicted for the content. -/
def Predicted (s3 : S3) (content : Bytes) (dst : Option Stored) : Prop :=
  ∃ o, dst = some o ∧ s3.etag o.content o.parts = predictedEtag s3.toMd5 content

/-- S3 answers the look for the expected digest. -/
def Transfer.Looks (t : Transfer) (dst : Option Stored) : Prop :=
  truthy t.md5 = true → t.getTagging.answered = true ∧
    (t.getTagging = .ok → ∀ o, dst = some o → o.md5Tag? = none → t.getObject.answered = true)

/-- A call that expects a digest finds it at the destination, as far as S3 answers. -/
def Skips (s3 : S3) (t : Transfer) (dst : Option Stored) : Prop :=
  truthy t.md5 = true ∧ t.getTagging = .ok ∧ ∃ o, dst = some o ∧
    (o.md5Tag? = some (pyStr t.md5) ∨
      o.md5Tag? = none ∧ t.getObject = .ok ∧ s3.etag o.content o.parts = pyStr t.md5)

variable {s3 : S3} {t : Transfer} {content : Bytes} {md5 : String} {dst : Option Stored} {o : Stored} {e : Raised}

theorem checkS3ForEtag_iff {etag r} : checkS3ForEtag s3 dst etag r = .ok true ↔
    r = .ok ∧ ∃ o, dst = some o ∧ s3.etag o.content o.parts = etag := by
  cases r <;> simp [checkS3ForEtag, Option.any_eq_true]

theorem checkS3ForMd5_some {r} : checkS3ForMd5 s3 (some o) md5 .ok r = .ok true ↔
    o.md5Tag? = some md5 ∨ o.md5Tag? = none ∧ r = .ok ∧ s3.etag o.content o.parts = md5 := by
  rw [checkS3ForMd5, Stored.md5Tag?]
  cases (o.tags.filter (·.1 = md5Tag)).map (·.2) with
  | nil => simp [checkS3ForEtag_iff]
  | cons value rest => simp [eq_comm]

theorem found_iff : t.found s3 dst = .ok true ↔ Skips s3 t dst := by
  unfold Transfer.found Skips
  by_cases hm : truthy t.md5 = true
  · rw [if_pos hm, and_iff_right hm]
    cases t.getTagging with
    | clientError | other => exact iff_of_false (by simp [checkS3ForMd5]) (by simp)
    | ok =>
      cases dst with
      | none => exact iff_of_false (by simp [checkS3ForMd5]) (by simp)
      | some o => simp [checkS3ForMd5_some]
  · rw [if_neg hm]
    exact iff_of_false (by simp) fun h => hm h.1

theorem etag_error {etag} {r : Reply} (h : checkS3ForEtag s3 dst etag r = .error e) :
    r.answered = false ∧ ∃ message, e = .other message := by
  cases r with
  | ok | clientError => cases h
  | other message => exact ⟨rfl, message, (Except.error.inj h).symm⟩

/-- The look ends, unless S3 raises something else than a `ClientError`. -/
theorem looks_iff : t.Looks dst ↔ ∃ there, t.found s3 dst = .ok there := by
  unfold Transfer.Looks Transfer.found
  cases truthy t.md5 with
  | false => simp
  | true =>
    cases t.getTagging with
    | clientError | other => simp [Reply.answered, checkS3ForMd5]
    | ok =>
      cases dst with
      | none => simp [Reply.answered, checkS3ForMd5]
      | some o =>
        simp only [checkS3ForMd5, Stored.md5Tag?, Option.some.injEq, forall_eq']
        cases (o.tags.filter (·.1 = md5Tag)).map (·.2) with
        | cons value rest => simp [Reply.answered]
        | nil => cases t.getObject <;> simp [Reply.answered, checkS3ForEtag]

theorem found_error (h : t.found s3 dst = .error e) : ∃ message, e = .other message := by
  unfold Transfer.found checkS3ForMd5 at h
  split at h
  · split at h
    · exact ⟨_, (Except.error.inj h).symm⟩
    · cases h
    · cases h
    · split at h
      · cases h
      · exact (etag_error h).2
  · cases h

theorem mismatch_iff : (truthy t.md5 && (calculateMd5AndEtag s3.toMd5 content).md5 ≠ pyStr t.md5) = true ↔
    ¬ (truthy t.md5 = true → s3.md5 content = pyStr t.md5) := by
  rw [calculate_md5]
  simp

/-- The ways to store a content. -/
inductive Stores (s3 : S3) (t : Transfer) (content : Bytes) (dst : Option Stored) : Option Stored × Except Raised Unit → Prop
  | unanswered {message} (h : t.getObjectAgain.answered = false) : Stores s3 t content dst (dst, .error (.other message))
  | kept {o : Stored} (hg : t.getObjectAgain = .ok) (hdst : dst = some o)
      (hp : s3.etag o.content o.parts = predictedEtag s3.toMd5 content) :
      Stores s3 t content dst (updateS3HashTagging (s3.md5 content) t.putTagging (some o))
  | notUploaded {e : Raised} (hg : t.getObjectAgain.answered = true) (hn : ¬ (t.getObjectAgain = .ok ∧ Predicted s3 content dst))
      (hu : t.upload.wrapped = .error e) : Stores s3 t content dst ((uploadToS3 content t.parts t.upload dst).1, .error e)
  | uploaded (hg : t.getObjectAgain.answered = true) (hn : ¬ (t.getObjectAgain = .ok ∧ Predicted s3 content dst))
      (hu : t.upload = .ok) :
      Stores s3 t content dst (updateS3HashTagging (s3.md5 content) t.putTagging (some ⟨content, t.parts, []⟩))

theorem stores_store (s3 : S3) (t : Transfer) (content : Bytes) (dst : Option Stored) :
    Stores s3 t content dst (t.store s3 content dst) := by
  unfold Transfer.store
  dsimp only
  rw [← predictedEtag, calculate_md5]
  cases hc : checkS3ForEtag s3 dst (predictedEtag s3.toMd5 content) t.getObjectAgain with
  | error e =>
    obtain ⟨hans, message, rfl⟩ := etag_error hc
    exact .unanswered hans
  | ok there =>
    have hans : t.getObjectAgain.answered = true := by
      cases hg : t.getObjectAgain with
      | ok | clientError => rfl
      | other message => rw [hg] at hc; cases hc
    cases there with
    | true =>
      obtain ⟨hg, o, rfl, ho⟩ := checkS3ForEtag_iff.1 hc
      exact .kept hg rfl ho
    | false =>
      have hn : ¬ (t.getObjectAgain = .ok ∧ Predicted s3 content dst) := fun h => by
        cases hc.symm.trans (checkS3ForEtag_iff.2 h)
      cases hu : t.upload with
      | ok => exact .uploaded hans hn hu
      | clientError | other =>
        have hw := Stores.notUploaded hans hn (by rw [hu]; rfl)
        rw [hu] at hw
        exact hw

/-- The ways a call goes. -/
inductive Transfers (s3 : S3) (t : Transfer) (dst : Option Stored) : Option Stored × Except Raised Unit → Prop
  | unanswered {message} (h : ¬ t.Looks dst) : Transfers s3 t dst (dst, .error (.other message))
  | skipped (hl : t.Looks dst) (hs : Skips s3 t dst) : Transfers s3 t dst (dst, .ok ())
  | failed {e : Raised} (hl : t.Looks dst) (hs : ¬ Skips s3 t dst) (hd : t.download = .error e) : Transfers s3 t dst (dst, .error e)
  | mismatch {content : Bytes} (hl : t.Looks dst) (hs : ¬ Skips s3 t dst) (hd : t.download = .ok content)
      (hm : ¬ (truthy t.md5 = true → s3.md5 content = pyStr t.md5)) : Transfers s3 t dst (dst, .error .invalidDigestError)
  | stored {content : Bytes} {r} (hl : t.Looks dst) (hs : ¬ Skips s3 t dst) (hd : t.download = .ok content)
      (hm : truthy t.md5 = true → s3.md5 content = pyStr t.md5) (h : Stores s3 t content dst r) : Transfers s3 t dst r

theorem transfers_transferToS3 (s3 : S3) (t : Transfer) (dst : Option Stored) :
    Transfers s3 t dst (transferToS3 s3 t dst) := by
  have hlooks := @looks_iff s3 t dst
  have hfound := @found_iff s3 t dst
  unfold transferToS3
  cases hf : t.found s3 dst with
  | error e =>
    obtain ⟨message, rfl⟩ := found_error hf
    rw [hf] at hlooks
    exact .unanswered (by simp [hlooks])
  | ok found =>
    have hl : t.Looks dst := hlooks.2 ⟨found, hf⟩
    cases found with
    | true => exact .skipped hl (hfound.1 hf)
    | false =>
      have hs : ¬ Skips s3 t dst := fun h => by cases hf.symm.trans (hfound.2 h)
      cases hd : t.download with
      | error e => exact .failed hl hs hd
      | ok content =>
        dsimp only
        split
        · exact .mismatch hl hs hd (mismatch_iff.1 ‹_›)
        · exact .stored hl hs hd (not_not.1 (mt mismatch_iff.2 ‹_›)) (stores_store s3 t content dst)

theorem tagging_ok {tagging : Write} (h : (updateS3HashTagging md5 tagging (some o)).2 = .ok ()) :
    (updateS3HashTagging md5 tagging (some o)).1 = some { o with tags := [(md5Tag, md5)] } := by
  cases tagging with
  | ok => rfl
  | clientError | other => cases h

/-! ## What a call leaves -/

def Tagged (s3 : S3) (dst : Option Stored) : Prop :=
  ∀ o, dst = some o → ∀ value, (md5Tag, value) ∈ o.tags → value = s3.md5 o.content

theorem tagged_update {tagging : Write} (h : Tagged s3 (some o)) (hm : s3.md5 o.content = md5) :
    Tagged s3 (updateS3HashTagging md5 tagging (some o)).1 := by
  intro o' ho' value hv
  cases ho'
  split at hv
  · obtain rfl : value = md5 := by simpa using hv
    rw [if_pos ‹_›]
    exact hm.symm
  · rw [if_neg ‹_›]
    exact h o rfl value hv

theorem tagged_none (content : Bytes) (parts : Nat) : Tagged s3 (some ⟨content, parts, []⟩) := by
  intro o ho value hv
  cases ho
  cases hv

/-- What is found with a digest has it. -/
theorem md5_of_skips (ht : Tagged s3 dst) (hm : s3.EtagIsMd5 (pyStr t.md5)) (h : Skips s3 t dst) :
    ∃ o, dst = some o ∧ s3.md5 o.content = pyStr t.md5 := by
  obtain ⟨-, -, o, rfl, htag | ⟨-, -, hetag⟩⟩ := h
  · refine ⟨o, rfl, (ht o rfl _ ?_).symm⟩
    obtain ⟨⟨key, v⟩, hkv, rfl⟩ := mem_map.1 (mem_of_head? htag)
    obtain ⟨hin, hkey⟩ := mem_filter.1 hkv
    obtain rfl : key = md5Tag := by simpa using hkey
    exact hin
  · exact ⟨o, rfl, hm _ _ hetag⟩

theorem truthy_some {m} (h : m ≠ "") : truthy (some m) = true := by simpa [truthy] using h

theorem tagged_transfer (t : Transfer) (ht : Tagged s3 dst) : Tagged s3 (transferToS3 s3 t dst).1 := by
  have h := transfers_transferToS3 s3 t dst
  generalize transferToS3 s3 t dst = r at h ⊢
  cases h with
  | unanswered | skipped | failed | mismatch => exact ht
  | stored _ _ _ _ h =>
    cases h with
    | unanswered => exact ht
    | kept _ hdst hp =>
      subst hdst
      exact tagged_update ht (by rw [s3.same_content _ _ _ hp])
    | notUploaded =>
      unfold uploadToS3
      split
      · exact tagged_none _ _
      · exact ht
    | uploaded => exact tagged_update (tagged_none _ _) rfl

/-- A call with an expected digest that returns leaves a content with it. -/
theorem md5_of_returned {t : Transfer} {md5} (ht : Tagged s3 dst) (hm : t.md5 = some md5) (hne : md5 ≠ "")
    (he : s3.EtagIsMd5 md5) (hr : (transferToS3 s3 t dst).2 = .ok ()) :
    ∃ o, (transferToS3 s3 t dst).1 = some o ∧ s3.md5 o.content = md5 := by
  have htr : truthy t.md5 = true := hm ▸ truthy_some hne
  have hstr : pyStr t.md5 = md5 := by rw [hm]; rfl
  have h := transfers_transferToS3 s3 t dst
  generalize transferToS3 s3 t dst = r at h hr ⊢
  cases h with
  | unanswered | failed | mismatch => cases hr
  | skipped _ hs => exact hstr ▸ md5_of_skips ht (hstr.symm ▸ he) hs
  | @stored content _ _ _ _ hd h =>
    have hd : s3.md5 content = md5 := hstr ▸ hd htr
    cases h with
    | unanswered | notUploaded => cases hr
    | kept _ _ hp => exact ⟨_, tagging_ok hr, by rw [← hd, s3.same_content _ _ _ hp]⟩
    | uploaded => exact ⟨_, tagging_ok hr, hd⟩

def transfers (s3 : S3) (calls : List Transfer) (dst : Option Stored) : Option Stored :=
  calls.foldl (fun dst t => (transferToS3 s3 t dst).1) dst

theorem tagged_transfers (calls : List Transfer) (ht : Tagged s3 dst) : Tagged s3 (transfers s3 calls dst) := by
  induction calls generalizing dst with
  | nil => exact ht
  | cons t calls ih => exact ih (tagged_transfer t ht)

/-- After any calls, whatever fails in them: the MD5 tag is right; a call with an expected
digest that returns leaves a content with that digest; and a call whose download has
another digest raises and changes nothing. -/
theorem transfer_integrity (s3 : S3) (dst : Option Stored) (ht : Tagged s3 dst) (calls : List Transfer) :
    Tagged s3 (transfers s3 calls dst) ∧
    (∀ (t : Transfer) (md5 : String), t.md5 = some md5 → md5 ≠ "" → s3.EtagIsMd5 md5 →
      (transferToS3 s3 t (transfers s3 calls dst)).2 = .ok () →
      ∃ o, (transferToS3 s3 t (transfers s3 calls dst)).1 = some o ∧ s3.md5 o.content = md5) ∧
    (∀ (t : Transfer) (md5 : String) (content : Bytes), t.md5 = some md5 → md5 ≠ "" →
      t.found s3 (transfers s3 calls dst) = .ok false → t.download = .ok content → s3.md5 content ≠ md5 →
      transferToS3 s3 t (transfers s3 calls dst) = (transfers s3 calls dst, .error .invalidDigestError)) := by
  have hall := tagged_transfers calls ht
  refine ⟨hall, fun t md5 hm hne he hr => md5_of_returned hall hm hne he hr, ?_⟩
  intro t md5 content hm hne hf hd hdi
  have htr : truthy t.md5 = true := hm ▸ truthy_some hne
  rw [transferToS3, hf, hd]
  dsimp only
  rw [if_pos]
  rw [htr, hm, calculate_md5, Bool.true_and, decide_eq_true_iff]
  exact hdi

/-! ## A store with small objects

The digest is the content itself, one character for a byte, and an ETag is the MD5.
-/

def byteChar (b : UInt8) : Char := Char.ofNat (b.toNat + 48)

theorem toNat_byteChar (b : UInt8) : (byteChar b).toNat = b.toNat + 48 := by
  have hlt := b.toNat_lt
  have hv : (b.toNat + 48).isValidChar := .inl (by omega)
  rw [byteChar, Char.ofNat, dif_pos hv]
  rfl

theorem byteChar_injective : Function.Injective byteChar := by
  intro b c h
  have hn := congrArg Char.toNat h
  rw [toNat_byteChar, toNat_byteChar] at hn
  exact UInt8.toNat_inj.1 (by omega)

def plainMd5 : Md5 := { digest := id, hex := fun digest => String.ofList (digest.map byteChar) }

theorem plainMd5_injective {content other} (h : plainMd5.md5 content = plainMd5.md5 other) : content = other :=
  map_injective_iff.2 byteChar_injective (String.ofList_injective h)

theorem dash_not_mem (content : Bytes) : '-' ∉ (plainMd5.md5 content).toList := by
  intro h
  rw [Md5.md5, plainMd5, String.toList_ofList, mem_map] at h
  obtain ⟨b, -, hb⟩ := h
  have hn := congrArg Char.toNat hb
  rw [toNat_byteChar] at hn
  have hd : '-'.toNat = 45 := rfl
  omega

def plainS3 : S3 where
  toMd5 := plainMd5
  etag content _ := plainMd5.md5 content
  same_content content _ other h := by
    unfold calculateMd5AndEtag at h
    dsimp only at h
    split at h
    · -- an ETag of several parts has a dash
      refine absurd ?_ (dash_not_mem content)
      rw [h, String.toList_append, String.toList_append]
      simp
    · rw [global_foldl, flatten_readChunks (by decide) _ _ (Nat.le_refl _)] at h
      exact plainMd5_injective h
  same_object _ _ _ _ h := plainMd5_injective h

/-- The first call ends after its upload, so the object has no tag; the second finds it by its ETag. -/
theorem transfer_integrity_untagged : Tagged plainS3 none ∧
    ∃ o, (transferToS3 plainS3 { md5 := some "12", download := .error .curlError }
        (transfers plainS3 [{ download := .ok [1, 2], putTagging := .other "" false }] none)).1 = some o ∧
      plainS3.md5 o.content = "12" :=
  have ht : Tagged plainS3 none := fun _ h => nomatch h
  ⟨ht, (transfer_integrity plainS3 none ht [{ download := .ok [1, 2], putTagging := .other "" false }]).2.1 _ "12" rfl
    (by decide) (fun _ _ h => h) (by decide +kernel)⟩

end BenchmarkAi.FetcherJob
