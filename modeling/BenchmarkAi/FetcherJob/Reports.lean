import BenchmarkAi.FetcherJob.Fetch
import BenchmarkAi.FetcherJob.Repeated
/-!
# What the fetcher job reports

The job should end with one final status at the node, and `DONE` should mean that the content is at
the destination. `Regular` follows the one attempt that decides, call by call: an exception that the
code does not turn into an error of its own leaves no status, and some returns are no transfer.
-/

open List

namespace BenchmarkAi.FetcherJob

/-! ## Content at the destination -/

def Served (attempts : Nat → Attempt) (content : Bytes) : Prop :=
  ∃ n status, (attempts n).http = .response status content ∧ 200 ≤ status ∧ status < 300

def FileThere (s3 : S3) (md5 : Option String) (source : Bytes → Prop) (o : Option Stored) : Prop :=
  ∃ found, o = some found ∧ if truthy md5 then s3.md5 found.content = pyStr md5 else source found.content

def moved (src dst : S3Object) (key : String) : String :=
  String.ofList (dst.key.toList ++ key.toList.drop src.key.toList.length)

def ContentThere (content : Bytes) (o : Option Stored) : Prop := ∃ found, o = some found ∧ found.content = content

def IsObject (w : World) (src : S3Object) (content : Bytes) : Prop :=
  ∃ o, (w.objects src.bucket).lookup src.key = some o ∧ o.content = content

/-- A source in S3 is at the destination, as a file or as a directory. -/
def TransferredS3 (w : World) (cfg : FetcherJobConfig) (src dst : S3Object) (type : Option FetchedType)
    (bucket : Bucket) : Prop :=
  match type with
  | some .file => FileThere w.s3 cfg.md5 (IsObject w src) (bucket dst.key)
  | some .directory => ∀ kv ∈ listed w src, ContentThere kv.2.content (bucket (moved src dst kv.1))
  | none => False

def Transferred (w : World) (cfg : FetcherJobConfig) (attempts : Nat → Attempt) (type : Option FetchedType)
    (bucket : Bucket) : Prop :=
  ∃ url src dst, w.urlparse cfg.src = .ok url ∧ S3Object.parse w cfg.src = .ok src ∧
    S3Object.parse w cfg.dst = .ok dst ∧
    if url.scheme = "http" ∨ url.scheme = "https" then FileThere w.s3 cfg.md5 (Served attempts) (bucket dst.key)
    else url.scheme = "s3" ∧ TransferredS3 w cfg src dst type bucket

/-- One final status is written, and it tells the truth. -/
def Reports (w : World) (cfg : FetcherJobConfig) (attempts : Nat → Attempt) (bucket : Bucket) : Prop :=
  let ended := retryingFetch w cfg attempts bucket
  ∃ node result, cfg.zk_node_path = some node ∧ ended.written = [(node, result)] ∧ result.status.final = true ∧
    (result.status = .done → Transferred w cfg attempts result.type ended.bucket)

/-! ## The condition -/

def Write.answered : Write → Bool
  | .other .. => false
  | _ => true

/-- What there is to download. A download that fails may do so with an exception that is left alone. -/
inductive Source
  | content (content : Bytes)
  | failed
  | escaped

/-- A status of 1xx or 3xx passes for a success, and one without a family is an exception. -/
def Response.source : Response → Source
  | .response status body =>
    if 100 ≤ status ∧ status < 400 then .content body else if 400 ≤ status ∧ status < 600 then .failed else .escaped
  | .curlError => .failed
  | .other _ => .escaped

def Reply.source (r : Reply) (o : Option Stored) : Source :=
  match r, o with
  | .ok, some found => .content found.content
  | .ok, none | .clientError, _ => .failed
  | .other _, _ => .escaped

section Transfer
variable (t : Transfer) (s3 : S3) (content : Bytes) (dst : Option Stored)

/-- S3 answers what it is asked to store the content; `right` is what has to hold if all goes well. -/
def Transfer.RegularStore (right : Prop) : Prop :=
  t.getObjectAgain.answered = true ∧
    (¬ (t.getObjectAgain = .ok ∧ Predicted s3 content dst) → t.upload.answered = true) ∧
    (t.getObjectAgain = .ok ∧ Predicted s3 content dst ∨ t.upload = .ok →
      t.putTagging.answered = true ∧ (t.putTagging = .ok → right))

/-- What is found with the expected digest has it; what is downloaded instead comes from the source. -/
def Transfer.Regular (download : Source) (source : Bytes → Prop) : Prop :=
  t.Looks dst ∧ (Skips s3 t dst → ∀ o, dst = some o → s3.md5 o.content = pyStr t.md5) ∧
    (¬ Skips s3 t dst →
      match download with
      | .content content => (truthy t.md5 = true → s3.md5 content = pyStr t.md5) →
          t.RegularStore s3 content dst (truthy t.md5 = false → source content)
      | .failed => True
      | .escaped => False)

end Transfer

/-- A copy goes through. Nothing is wrapped around it. -/
def Copied (s3 : S3) (calls : CopyCalls) (src : Stored) (dst : Option Stored) : Prop :=
  calls.dstEtag.answered = true ∧
    ((calls.dstEtag = .ok ∧ ∃ o, dst = some o ∧ s3.etag o.content o.parts = s3.etag src.content src.parts) ∨
      calls.copy = .ok)

/-- The listing and the copies go through, each from what the ones before it have left. -/
def AllCopied (w : World) (a : Attempt) (src dst : S3Object) : Nat → List (String × Stored) → Bucket → Prop
  | _, [], _ => True
  | i, (key, o) :: rest, bucket =>
    (a.objects i).next = .ok ∧ Copied w.s3 (a.objects i) o (bucket (replace key src.key dst.key)) ∧
      AllCopied w a src dst (i + 1) rest (atKey (replace key src.key dst.key)
        (s3ToS3CheckEtag w.s3 { a.objects i with srcEtag := .ok } (some o)) bucket).1

/-- The last object that goes to the key. -/
def lastTo (src dst : S3Object) (key : String) (l : List (String × Stored)) : Option (String × Stored) :=
  (l.filter fun kv => replace kv.1 src.key dst.key = key).getLast?

/-- Each key has the content of the last object that went there, or what it had. -/
def LastThere (src dst : S3Object) (l : List (String × Stored)) (before after : Bucket) : Prop :=
  ∀ key, (after key = before key ∧ lastTo src dst key l = none) ∨
    ∃ kv, lastTo src dst key l = some kv ∧ ContentThere kv.2.content (after key)

/-- The last object that goes where this one belongs has its content; if none goes there, the content is there. -/
def Arrives (w : World) (src dst : S3Object) (bucket : Bucket) (kv : String × Stored) : Prop :=
  match lastTo src dst (moved src dst kv.1) (listed w src) with
  | some last => last.2.content = kv.2.content
  | none => ContentThere kv.2.content (bucket (moved src dst kv.1))

def transferOf (cfg : FetcherJobConfig) (a : Attempt) (download : Except Raised Bytes) : Transfer :=
  { a.operations with md5 := cfg.md5, download }

def RegularS3 (w : World) (cfg : FetcherJobConfig) (a : Attempt) (src dst : S3Object) (bucket : Bucket) : Prop :=
  match isS3File w a src with
  | .error e => e.answered = true
  | .ok true =>
    if truthy cfg.md5 then
      (transferOf cfg a (downloadFromS3 w a src)).Regular w.s3 (bucket dst.key)
        (a.download.source ((w.objects src.bucket).lookup src.key)) (IsObject w src)
    else ∃ o, (w.objects src.bucket).lookup src.key = some o ∧ (a.objects 0).srcEtag = .ok ∧
      Copied w.s3 (a.objects 0) o (bucket dst.key)
  | .ok false => AllCopied w a src dst 0 (listed w src) bucket ∧ ∀ kv ∈ listed w src, Arrives w src dst bucket kv

/-- An attempt that ends with the truth. -/
def Regular (w : World) (cfg : FetcherJobConfig) (attempts : Nat → Attempt) (a : Attempt) (bucket : Bucket) : Prop :=
  ∃ url src dst, w.urlparse cfg.src = .ok url ∧ S3Object.parse w cfg.src = .ok src ∧
    S3Object.parse w cfg.dst = .ok dst ∧
    if url.scheme = "http" ∨ url.scheme = "https" then
      (transferOf cfg a (httpDownload a.http)).Regular w.s3 (bucket dst.key) a.http.source (Served attempts)
    else url.scheme = "s3" ∧ RegularS3 w cfg a src dst bucket

/-- The server refuses with 5xx, and nothing was found with the expected digest: the job tries again. -/
def Refused (w : World) (cfg : FetcherJobConfig) (a : Attempt) (bucket : Bucket) : Prop :=
  ∃ url dst, w.urlparse cfg.src = .ok url ∧ (url.scheme = "http" ∨ url.scheme = "https") ∧
    S3Object.parse w cfg.dst = .ok dst ∧ (∃ status body, a.http = .response status body ∧ 500 ≤ status ∧ status < 600) ∧
    (transferOf cfg a (httpDownload a.http)).Looks (bucket dst.key) ∧
    ¬ Skips w.s3 (transferOf cfg a (httpDownload a.http)) (bucket dst.key)

/-- The attempt after which the job stops. -/
structure LastAttempt (w : World) (cfg : FetcherJobConfig) (attempts : Nat → Attempt) (bucket : Bucket) (m : Nat) : Prop where
  pos : 1 ≤ m
  le : m ≤ max 1 cfg.max_attempts
  refused : ∀ n, 1 ≤ n → n < m → Refused w cfg (attempts n) bucket
  last : m = max 1 cfg.max_attempts ∨ ¬ Refused w cfg (attempts m) bucket

/-- A return has reached what it should, and an error is one of the code's own. -/
def Truthful {α β : Type} (P : α → β → Prop) (r : β × Except Raised α) : Prop :=
  match r.2 with
  | .ok type => P type r.1
  | .error e => e.answered = true

/-! ## A transfer -/

variable {t : Transfer} {e : Raised} {right : Prop}

section Transfer
variable {s3 : S3} {dst : Option Stored} {content : Bytes} {P : Option Stored → Prop} {source : Bytes → Prop}

theorem fileThere_some {md5 : Option String} {o : Stored} : FileThere s3 md5 source (some o) ↔
    if truthy md5 then s3.md5 o.content = pyStr md5 else source o.content := by simp [FileThere]

theorem tagging_truthful {md5} {tagging : Write} {o : Stored}
    (hP : P (some { o with tags := [(md5Tag, md5)] }) ↔ right) :
    Truthful (fun _ => P) (updateS3HashTagging md5 tagging (some o)) ↔
      tagging.answered = true ∧ (tagging = .ok → right) := by
  rw [← hP]
  cases tagging <;> simp [Truthful, updateS3HashTagging, Write.wrapped, Write.answered, Write.takesEffect, Raised.answered]

theorem store_truthful {r} (h : Stores s3 t content dst r) (hP : ∀ o : Stored, o.content = content → (P (some o) ↔ right)) :
    Truthful (fun _ => P) r ↔ t.RegularStore s3 content dst right := by
  unfold Transfer.RegularStore
  cases h with
  | unanswered hg => simp [Truthful, Raised.answered, hg]
  | kept hg hdst hp =>
    have hk : t.getObjectAgain = .ok ∧ Predicted s3 content dst := ⟨hg, _, hdst, hp⟩
    rw [and_iff_right fun hn => absurd hk hn, imp_iff_right (.inl hk), and_iff_right (by rw [hg]; rfl)]
    exact tagging_truthful (hP _ (s3.same_content _ _ _ hp))
  | notUploaded hg hn hu =>
    rw [and_iff_right hg, imp_iff_right hn, or_iff_right hn]
    cases hw : t.upload <;> rw [hw] at hu <;> cases hu <;> simp [Truthful, Write.answered, Raised.answered]
  | uploaded hg hn hu =>
    rw [and_iff_right hg, imp_iff_right hn, or_iff_right hn, and_iff_right (by rw [hu]; rfl), imp_iff_right hu]
    exact tagging_truthful (hP _ rfl)

def outcome : Except Raised Bytes → Source
  | .ok content => .content content
  | .error e => if e.answered then .failed else .escaped

theorem transfer_truthful : Truthful (fun _ => FileThere s3 t.md5 source) (transferToS3 s3 t dst) ↔
    t.Regular s3 dst (outcome t.download) source := by
  have h := transfers_transferToS3 s3 t dst
  generalize transferToS3 s3 t dst = r at h ⊢
  unfold Transfer.Regular
  cases h with
  | unanswered hl => simp [Truthful, Raised.answered, hl]
  | skipped hl hs =>
    rw [and_iff_right hl, imp_iff_right hs, and_iff_left fun hn => absurd hs hn]
    obtain ⟨htr, -, o, rfl, -⟩ := hs
    simp [Truthful, fileThere_some, htr]
  | @failed e hl hs hd =>
    rw [and_iff_right hl, imp_iff_right hs, and_iff_right fun h => absurd h hs, hd]
    cases he : e.answered <;> simp [Truthful, outcome, he]
  | mismatch hl hs hd hm =>
    rw [and_iff_right hl, imp_iff_right hs, and_iff_right fun h => absurd h hs, hd]
    exact iff_of_true rfl fun h => absurd h hm
  | stored hl hs hd hm h =>
    rw [and_iff_right hl, imp_iff_right hs, and_iff_right fun h => absurd h hs, hd]
    dsimp only [outcome]
    rw [imp_iff_right hm]
    refine store_truthful h fun o ho => ?_
    rw [fileThere_some, ho]
    cases htr : truthy t.md5 with
    | true => simp [hm htr]
    | false => simp

/-- A transfer is tried again if the download is to be, and nothing has changed then. -/
theorem transfer_refused (hl : t.Looks dst) (hs : ¬ Skips s3 t dst) (hd : t.download = .error .httpServerError) :
    transferToS3 s3 t dst = (dst, .error .httpServerError) := by
  have h := transfers_transferToS3 s3 t dst
  generalize transferToS3 s3 t dst = r at h ⊢
  cases h with
  | unanswered hn => exact absurd hl hn
  | skipped _ h => exact absurd h hs
  | failed _ _ hd' => rw [Except.error.inj (hd'.symm.trans hd)]
  | mismatch _ _ hd' | stored _ _ hd' => cases hd'.symm.trans hd

theorem refused_of_transfer (he : (transferToS3 s3 t dst).2 = .error e) (hr : e.retryable = true) :
    t.Looks dst ∧ ¬ Skips s3 t dst ∧ t.download = .error .httpServerError := by
  have wrapped_error {wr : Write} (he : wr.wrapped = .error e) : e.retryable = false := by
    cases wr <;> cases he <;> rfl
  have h := transfers_transferToS3 s3 t dst
  generalize transferToS3 s3 t dst = r at h he
  cases h with
  | unanswered | mismatch => cases he; cases hr
  | skipped => cases he
  | failed hl hs hd =>
    cases he
    refine ⟨hl, hs, hd.trans ?_⟩
    cases e <;> first | rfl | cases hr
  | stored _ _ _ _ h =>
    cases h with
    | unanswered => cases he; cases hr
    | notUploaded _ _ hu =>
      cases he
      rw [wrapped_error hu] at hr
      cases hr
    | kept | uploaded =>
      rw [wrapped_error he] at hr
      cases hr

end Transfer

/-! ## Copies -/

variable {w : World} {cfg : FetcherJobConfig} {attempts : Nat → Attempt} {a : Attempt} {bucket : Bucket}

theorem atKey_self (key : String) (f : Option Stored → Option Stored × Except Raised Unit) :
    (atKey key f bucket).1 key = (f (bucket key)).1 := Function.update_self ..

theorem atKey_ne {key key'} (h : key' ≠ key) (f : Option Stored → Option Stored × Except Raised Unit) :
    (atKey key f bucket).1 key' = bucket key' := Function.update_of_ne h ..

theorem atKey_same {key f} {r : Except Raised Unit} (h : f (bucket key) = (bucket key, r)) :
    atKey key f bucket = (bucket, r) := by
  rw [atKey, h, Function.update_eq_self]

section Copy
variable {s3 : S3} {calls : CopyCalls} {o : Stored} {dst : Option Stored}

theorem copyUnlessSame_spec {etag} {same : Prop} (hs : etag = some (s3.etag o.content o.parts) ↔ same)
    (ht : same → ContentThere o.content dst) :
    ((copyUnlessSame s3 calls o etag dst).2 = .ok () ∧ (same ∨ calls.copy = .ok) ∧
      ContentThere o.content (copyUnlessSame s3 calls o etag dst).1) ∨
    ∃ e, (copyUnlessSame s3 calls o etag dst).2 = .error e ∧ e.answered = false ∧ ¬ (same ∨ calls.copy = .ok) := by
  by_cases hsame : same
  · rw [copyUnlessSame, if_pos (hs.2 hsame)]
    exact .inl ⟨rfl, .inl hsame, ht hsame⟩
  · rw [copyUnlessSame, if_neg (mt hs.1 hsame)]
    cases calls.copy with
    | ok => exact .inl ⟨rfl, .inr rfl, _, rfl, rfl⟩
    | clientError | other => exact .inr ⟨_, rfl, rfl, by simpa using hsame⟩

/-- A copy goes through and the content is there, copied or there before with the same ETag; or it ends with an
exception that is left alone. -/
theorem checkEtag_spec :
    ((s3ToS3CheckEtag s3 calls (some o) dst).2 = .ok () ∧ (calls.srcEtag = .ok ∧ Copied s3 calls o dst) ∧
      ContentThere o.content (s3ToS3CheckEtag s3 calls (some o) dst).1) ∨
    ∃ e, (s3ToS3CheckEtag s3 calls (some o) dst).2 = .error e ∧ e.answered = false ∧
      ¬ (calls.srcEtag = .ok ∧ Copied s3 calls o dst) := by
  unfold s3ToS3CheckEtag Copied
  cases calls.srcEtag with
  | clientError | other => cases calls.dstEtag <;> exact .inr ⟨_, rfl, rfl, by simp⟩
  | ok =>
    rw [and_iff_right rfl]
    cases calls.dstEtag with
    | other message => exact .inr ⟨_, rfl, rfl, by simp [Reply.answered]⟩
    | clientError =>
      simpa [Reply.answered] using @copyUnlessSame_spec s3 calls o dst none False (by simp) False.elim
    | ok =>
      rw [and_iff_right rfl, show Reply.ok.answered = true from rfl, and_iff_right rfl]
      refine copyUnlessSame_spec (by simp) ?_
      rintro ⟨found, rfl, he⟩
      exact ⟨found, rfl, s3.same_object _ _ _ _ he⟩

end Copy

section Loop
variable {src dst : S3Object} {kv : String × Stored} {key : String}

theorem lastTo_cons {l : List (String × Stored)} : lastTo src dst key (kv :: l) =
    (lastTo src dst key l).or (if replace kv.1 src.key dst.key = key then some kv else none) := by
  rw [lastTo, lastTo, filter_cons]
  split
  · rename_i h
    rw [if_pos (of_decide_eq_true h), getLast?_cons]
    cases getLast? _ <;> rfl
  · rename_i h
    rw [if_neg (mt decide_eq_true h), Option.or_none]

/-- The loop over the listing goes through, or it ends with an exception that is left alone. -/
theorem copyListed_spec (l : List (String × Stored)) (i : Nat) (bucket : Bucket) :
    ((copyListed w a src dst i l bucket).2 = .ok () ∧ AllCopied w a src dst i l bucket ∧
      LastThere src dst l bucket (copyListed w a src dst i l bucket).1) ∨
    ∃ e, (copyListed w a src dst i l bucket).2 = .error e ∧ e.answered = false ∧ ¬ AllCopied w a src dst i l bucket := by
  induction l generalizing i bucket with
  | nil => exact .inl ⟨rfl, trivial, fun key => .inl ⟨rfl, rfl⟩⟩
  | cons kv l ih =>
    obtain ⟨key, o⟩ := kv
    rw [copyListed, AllCopied]
    cases hn : (a.objects i).next with
    | other | clientError => exact .inr ⟨_, rfl, rfl, by simp⟩
    | ok =>
      rw [and_iff_right rfl]
      dsimp only
      have hone := @checkEtag_spec w.s3 { a.objects i with srcEtag := .ok } o (bucket (replace key src.key dst.key))
      set f := s3ToS3CheckEtag w.s3 { a.objects i with srcEtag := .ok } (some o) with hf
      obtain ⟨hok, ⟨-, hc⟩, ht⟩ | ⟨e, he, hans, hc⟩ := hone
      · have hr : atKey (replace key src.key dst.key) f bucket = ((atKey (replace key src.key dst.key) f bucket).1, .ok ()) :=
          Prod.ext rfl hok
        rw [hr]
        dsimp only
        obtain ⟨hall, hcs, hk⟩ | ⟨e, he, hans, hcs⟩ := ih (i + 1) (atKey (replace key src.key dst.key) f bucket).1
        · refine .inl ⟨hall, ⟨hc, hcs⟩, fun key' => ?_⟩
          rw [lastTo_cons]
          obtain ⟨hsame, hnone⟩ | ⟨kv, hlast, hth⟩ := hk key'
          · rw [hnone, hsame, Option.none_or]
            split
            · rename_i heq
              subst heq
              exact .inr ⟨_, rfl, by rw [atKey_self]; exact ht⟩
            · rename_i hne
              exact .inl ⟨atKey_ne (Ne.symm hne) f, rfl⟩
          · exact .inr ⟨kv, by rw [hlast]; rfl, hth⟩
        · exact .inr ⟨e, he, hans, fun h => hcs h.2⟩
      · have hr : atKey (replace key src.key dst.key) f bucket = ((atKey (replace key src.key dst.key) f bucket).1, .error e) :=
          Prod.ext rfl he
        rw [hr]
        exact .inr ⟨e, rfl, hans, fun h => hc ⟨rfl, h.1⟩⟩

/-- The copies leave the directory at the destination. -/
theorem deep_truthful : Truthful (fun _ => TransferredS3 w cfg src dst (some .directory)) (s3ToS3Deep w a src dst bucket) ↔
    AllCopied w a src dst 0 (listed w src) bucket ∧ ∀ kv ∈ listed w src, Arrives w src dst bucket kv := by
  unfold Truthful s3ToS3Deep
  obtain ⟨hok, hc, hk⟩ | ⟨e, he, hans, hc⟩ := @copyListed_spec w a src dst (listed w src) 0 bucket
  · rw [hok, and_iff_right hc]
    refine forall₂_congr fun kv _ => ?_
    rw [Arrives]
    obtain ⟨hsame, hnone⟩ | ⟨last, hlast, found, hf, hco⟩ := hk (moved src dst kv.1)
    · rw [hnone, hsame]
    · rw [hlast, hf]
      simp [ContentThere, hco]
  · rw [he]
    exact iff_of_false (by simp [hans]) fun h => hc h.1

end Loop

variable {kv : String × Stored} {src dst : S3Object} {type : FetchedType}

theorem listed_key (h : kv ∈ listed w src) : ∃ rest, kv.1.toList = src.key.toList ++ rest := by
  obtain ⟨rest, hr⟩ := isPrefixOf_iff_prefix.1 (mem_filter.1 h).2
  exact ⟨rest, hr.symm⟩

/-- Below the source, keys that differ are moved to keys that differ. -/
theorem moved_inj {kv' : String × Stored} (h : kv ∈ listed w src) (h' : kv' ∈ listed w src)
    (heq : moved src dst kv.1 = moved src dst kv'.1) : kv.1 = kv'.1 := by
  obtain ⟨rest, hr⟩ := listed_key h
  obtain ⟨rest', hr'⟩ := listed_key h'
  have hre := append_cancel_left (String.ofList_injective heq)
  rw [hr, hr', drop_left, drop_left] at hre
  exact String.toList_injective (by rw [hr, hr', hre])

theorem nodup_moved (src dst : S3Object) : ((listed w src).map fun kv => moved src dst kv.1).Nodup := by
  have hk : ((listed w src).map Prod.fst).Nodup :=
    (Sublist.map _ filter_sublist).nodup (w.nodup src.bucket)
  rw [Nodup, pairwise_map] at hk ⊢
  exact hk.imp_of_mem fun hx hy hne heq => hne (moved_inj hx hy heq)

/-! ## One attempt -/

/-- The kind of the source is never asked for again; a file is an object. -/
theorem isS3File_spec : (∃ e, isS3File w a src = .error e ∧ e.retryable = false) ∨ isS3File w a src = .ok false ∨
    isS3File w a src = .ok true ∧ ∃ o, (w.objects src.bucket).lookup src.key = some o := by
  have scan_spec : (∃ e, isS3File.scan w a src = .error e ∧ e.retryable = false) ∨ isS3File.scan w a src = .ok false ∨
      isS3File.scan w a src = .ok true ∧ ∃ o, (w.objects src.bucket).lookup src.key = some o := by
    unfold isS3File.scan
    split
    · exact .inl ⟨_, rfl, rfl⟩
    · exact .inl ⟨_, rfl, rfl⟩
    · split
      · exact .inl ⟨_, rfl, rfl⟩
      · rename_i hne
        obtain ⟨kv, hkv⟩ := exists_mem_of_ne_nil _ hne
        refine .inr ?_
        cases hall : (listed w src).all fun kv => kv.1 = src.key with
        | false => exact .inl rfl
        | true =>
          have hkey : kv.1 = src.key := of_decide_eq_true (all_eq_true.1 hall kv hkv)
          exact .inr ⟨rfl, Option.isSome_iff_exists.1
            (lookup_isSome_iff.2 ⟨kv, (mem_filter.1 hkv).1, beq_iff_eq.2 hkey.symm⟩)⟩
  unfold isS3File
  split
  · exact .inl ⟨_, rfl, rfl⟩
  · split
    · split
      · rename_i o ho _
        exact .inr (.inr ⟨rfl, o, ho⟩)
      · exact scan_spec
    · exact scan_spec
  · exact scan_spec

theorem checkStatus_eq (status : Nat) : checkStatus status =
    if 100 ≤ status ∧ status < 400 then .ok () else if 400 ≤ status ∧ status < 500 then .error .httpClientError
    else if 500 ≤ status ∧ status < 600 then .error .httpServerError
    else .error (.other (toString (status - status % 100) ++ " is not a valid HTTPFamily")) := by
  unfold checkStatus
  split <;> split_ifs <;> first | rfl | grind

theorem outcome_http (r : Response) : outcome (httpDownload r) = r.source := by
  cases r with
  | curlError | other => rfl
  | response status body =>
    rw [httpDownload, checkStatus_eq, Response.source]
    split_ifs <;> first | rfl | omega

theorem http_serverError {r : Response} : httpDownload r = .error .httpServerError ↔
    ∃ status body, r = .response status body ∧ 500 ≤ status ∧ status < 600 := by
  cases r with
  | curlError | other => simp [httpDownload]
  | response status body =>
    rw [httpDownload, checkStatus_eq]
    split_ifs <;> simp [Except.map] <;> omega

theorem outcome_s3 : outcome (downloadFromS3 w a src) = a.download.source ((w.objects src.bucket).lookup src.key) := by
  unfold downloadFromS3
  cases a.download with
  | other | clientError => rfl
  | ok => cases (w.objects src.bucket).lookup src.key <;> rfl

theorem downloadFromS3_ne : downloadFromS3 w a src ≠ .error .httpServerError := by
  unfold downloadFromS3
  split
  · simp
  · simp
  · split <;> simp

theorem truthful_withType {P : Option FetchedType → Bucket → Prop} {r : Bucket × Except Raised Unit} :
    Truthful P (withType type r) ↔ Truthful (fun _ => P (some type)) r := by
  rcases r with ⟨b, _ | _⟩ <;> rfl

theorem withType_error {r : Bucket × Except Raised Unit} : (withType type r).2 = .error e ↔ r.2 = .error e := by
  rcases r with ⟨b, _ | _⟩ <;> simp [withType, Except.map]

theorem truthful_atKey {key f} {P : Option Stored → Prop} :
    Truthful (fun _ b => P (b key)) (atKey key f bucket) ↔ Truthful (fun _ => P) (f (bucket key)) := by
  unfold Truthful
  beta_reduce
  rw [atKey_self]
  rfl

theorem transferTo_truthful {download} {source : Bytes → Prop} :
    Truthful (fun _ b => FileThere w.s3 cfg.md5 source (b dst.key)) (transferTo w cfg a download dst bucket) ↔
      (transferOf cfg a download).Regular w.s3 (bucket dst.key) (outcome download) source :=
  truthful_atKey.trans (@transfer_truthful (transferOf cfg a download) w.s3 (bucket dst.key) source)

theorem single_truthful {o : Stored} (ho : (w.objects src.bucket).lookup src.key = some o) (hmd5 : ¬ truthy cfg.md5 = true) :
    Truthful (fun _ => TransferredS3 w cfg src dst (some .file)) (s3ToS3Single w a src dst bucket) ↔
      (a.objects 0).srcEtag = .ok ∧ Copied w.s3 (a.objects 0) o (bucket dst.key) := by
  refine (@truthful_atKey bucket dst.key _ (FileThere w.s3 cfg.md5 (IsObject w src))).trans ?_
  rw [ho]
  unfold Truthful
  obtain ⟨hok, hc, found, hf, hco⟩ | ⟨e, he, hans, hc⟩ := @checkEtag_spec w.s3 (a.objects 0) o (bucket dst.key)
  · rw [hok, hf]
    refine iff_of_true (fileThere_some.2 ?_) hc
    rw [if_neg hmd5]
    exact ⟨o, ho, hco.symm⟩
  · rw [he]
    exact iff_of_false (by simp [hans]) hc

theorem retryable_of_not_answered (h : e.answered = false) : e.retryable = false := by
  cases e <;> first | rfl | cases h

theorem s3ToS3_spec : (Truthful (TransferredS3 w cfg src dst) (s3ToS3 w cfg a src dst bucket) ↔ RegularS3 w cfg a src dst bucket) ∧
    ∀ e, (s3ToS3 w cfg a src dst bucket).2 = .error e → e.retryable = false := by
  unfold s3ToS3 RegularS3
  obtain ⟨e, hfi, hr⟩ | hfi | ⟨hfi, o, ho⟩ := @isS3File_spec w a src
  · rw [hfi]
    refine ⟨Iff.rfl, fun e' he => ?_⟩
    cases he
    exact hr
  · rw [hfi]
    refine ⟨truthful_withType.trans deep_truthful, fun e he => ?_⟩
    obtain ⟨hok, -⟩ | ⟨e', he', hans, -⟩ := @copyListed_spec w a src dst (listed w src) 0 bucket
    · cases hok.symm.trans (withType_error.1 he)
    · cases he'.symm.trans (withType_error.1 he)
      exact retryable_of_not_answered hans
  · rw [hfi]
    dsimp only
    rw [truthful_withType]
    split
    · rw [← outcome_s3]
      refine ⟨transferTo_truthful, fun e he => Bool.eq_false_iff.2 fun hr => ?_⟩
      exact downloadFromS3_ne (refused_of_transfer (withType_error.1 he) hr).2.2
    · rename_i hmd5
      rw [single_truthful ho hmd5]
      refine ⟨by simp [ho], fun e he => ?_⟩
      have he := withType_error.1 he
      rw [s3ToS3Single, ho] at he
      obtain ⟨hok, -⟩ | ⟨e', he', hans, -⟩ := @checkEtag_spec w.s3 (a.objects 0) o (bucket dst.key)
      · cases hok.symm.trans he
      · cases he'.symm.trans he
        exact retryable_of_not_answered hans

/-- An attempt ends with the truth if and only if it is regular. -/
theorem fetch_truthful : Truthful (Transferred w cfg attempts) (fetch w cfg a bucket) ↔ Regular w cfg attempts a bucket := by
  unfold fetch Transferred Regular S3Object.parse
  cases w.urlparse cfg.src with
  | error message => simp [Truthful, Raised.answered]
  | ok url =>
    cases w.urlparse cfg.dst with
    | error message =>
      dsimp only
      split_ifs <;> simp [Truthful, Raised.answered]
    | ok durl =>
      simp only [Except.ok.injEq, exists_and_left, exists_eq_left']
      split
      · refine truthful_withType.trans ?_
        rw [← outcome_http]
        exact transferTo_truthful
      · split
        · rename_i hs3
          rw [and_iff_right hs3]
          simpa [hs3] using s3ToS3_spec.1
        · rename_i hs3
          simp [Truthful, hs3]

theorem fetch_refused (h : Refused w cfg a bucket) : fetch w cfg a bucket = (bucket, .error .httpServerError) := by
  obtain ⟨url, dst, hurl, hs, hdst, hst, hl, hsk⟩ := h
  have ht := transfer_refused hl hsk (http_serverError.2 hst)
  rw [fetch, hurl]
  dsimp only
  rw [if_pos hs, hdst]
  have heq : transferTo w cfg a (httpDownload a.http) dst bucket = (bucket, .error .httpServerError) := atKey_same ht
  dsimp only
  rw [heq]
  rfl

theorem parse_error {url} (h : S3Object.parse w url = .error e) : e.retryable = false := by
  unfold S3Object.parse at h
  split at h <;> cases h
  rfl

theorem refused_of_fetch (h : (fetch w cfg a bucket).2 = .error e) (hr : e.retryable = true) : Refused w cfg a bucket := by
  unfold fetch at h
  split at h
  · cases h
    cases hr
  · rename_i url hurl
    split at h
    · rename_i hs
      split at h
      · rename_i hdst
        cases h
        rw [parse_error hdst] at hr
        cases hr
      · rename_i dst hdst
        obtain ⟨hl, hsk, hd⟩ := refused_of_transfer (withType_error.1 h) hr
        exact ⟨url, dst, hurl, hs, hdst, http_serverError.1 hd, hl, hsk⟩
    · split at h
      · split at h
        · rename_i hsrc
          cases h
          rw [parse_error hsrc] at hr
          cases hr
        · rename_i hdst _
          cases h
          rw [parse_error hdst] at hr
          cases hr
        · rw [s3ToS3_spec.2 _ h] at hr
          cases hr
      · cases h

/-! ## The attempts together -/

/-- The attempts before the last one change nothing. -/
theorem retryFetch_last (left n : Nat) : ∃ m, n ≤ m ∧ m ≤ n + left ∧
    (∀ k, n ≤ k → k < m → Refused w cfg (attempts k) bucket) ∧
    (m = n + left ∨ ¬ Refused w cfg (attempts m) bucket) ∧
    retryFetch w cfg attempts left n bucket = fetch w cfg (attempts m) bucket := by
  induction left generalizing n with
  | zero => exact ⟨n, Nat.le_refl n, Nat.le_refl n, fun k hk hlt => by omega, .inl rfl, rfl⟩
  | succ left ih =>
    by_cases h : Refused w cfg (attempts n) bucket
    · obtain ⟨m, hle, hle', hre, hlast, heq⟩ := ih (n + 1)
      refine ⟨m, by omega, by omega, fun k hk hlt => ?_, hlast.imp_left (by omega), ?_⟩
      · rcases Nat.eq_or_lt_of_le hk with rfl | hk
        · exact h
        · exact hre k hk hlt
      · rw [retryFetch, fetch_refused h]
        exact heq
    · refine ⟨n, Nat.le_refl n, by omega, fun k hk hlt => by omega, .inr h, ?_⟩
      rw [retryFetch]
      split
      · rename_i bucket' e hf
        rw [if_neg fun hr => h (refused_of_fetch (congrArg Prod.snd hf) hr), hf]
      · rfl

theorem lastAttempt_unique {m m' : Nat} (h : LastAttempt w cfg attempts bucket m)
    (h' : LastAttempt w cfg attempts bucket m') : m = m' := by
  have not_lt {m m'} (h : LastAttempt w cfg attempts bucket m) (h' : LastAttempt w cfg attempts bucket m') : ¬ m < m' := by
    intro hlt
    rcases h.last with heq | hno
    · have := h'.le
      omega
    · exact hno (h'.refused m h.pos hlt)
  have := not_lt h h'
  have := not_lt h' h
  omega

theorem reports_iff : Reports w cfg attempts bucket ↔ truthy cfg.zk_node_path = true ∧
    Truthful (Transferred w cfg attempts) (retryFetch w cfg attempts (cfg.max_attempts - 1) 1 bucket) := by
  unfold Reports retryingFetch updateZkNode Truthful
  cases hn : cfg.zk_node_path with
  | none => simp [truthy]
  | some node =>
    cases retryFetch w cfg attempts (cfg.max_attempts - 1) 1 bucket with
    | mk b result =>
      cases result with
      | ok type => cases truthy (some node) <;> simp [pyStr, FetcherStatus.final]
      | error e => cases he : e.answered <;> cases truthy (some node) <;> simp [he, pyStr, FetcherStatus.final]

/-- The job writes one final status to its node, and `DONE` only with the content at the destination, if and only if
it has a node and the attempt after which it stops is regular. -/
theorem fetch_reports (w : World) (cfg : FetcherJobConfig) (attempts : Nat → Attempt) (bucket : Bucket) :
    Reports w cfg attempts bucket ↔ truthy cfg.zk_node_path = true ∧
      ∃ m, LastAttempt w cfg attempts bucket m ∧ Regular w cfg attempts (attempts m) bucket := by
  obtain ⟨m, hpos, hle, hre, hlast, heq⟩ := @retryFetch_last w cfg attempts bucket (cfg.max_attempts - 1) 1
  have hmax : 1 + (cfg.max_attempts - 1) = max 1 cfg.max_attempts := by omega
  rw [hmax] at hle hlast
  have hm : LastAttempt w cfg attempts bucket m := ⟨hpos, hle, hre, hlast⟩
  rw [reports_iff, heq, fetch_truthful]
  refine and_congr_right fun _ => ⟨fun h => ⟨m, hm, h⟩, ?_⟩
  rintro ⟨m', hm', h⟩
  rw [lastAttempt_unique hm hm']
  exact h

/-! ## Two jobs -/

def splitUrl (s : String) : Url :=
  let scheme := s.toList.takeWhile (· ≠ ':')
  let rest := s.toList.drop (scheme.length + 3)
  ⟨String.ofList scheme, String.ofList (rest.takeWhile (· ≠ '/')), String.ofList (rest.dropWhile (· ≠ '/'))⟩

def plainWorld : World where
  s3 := plainS3
  urlparse s := .ok (splitUrl s)
  objects _ := []
  nodup _ := nodup_nil

def jobFor (src : String) : FetcherJobConfig :=
  { src, dst := "s3://bucket/data_sets/data.zip", zk_node_path := some "/node" }

def secondTime : Nat → Attempt
  | 1 => { http := .response 503 [] }
  | _ => { http := .response 200 [1, 2] }

/-- A source with another scheme is reported as `DONE`, with nothing at the destination. -/
theorem other_scheme_is_done :
    (retryingFetch plainWorld (jobFor "ftp://host/data.zip") secondTime (fun _ => none)).written =
        [("/node", ⟨.done, none, some "Success"⟩)] ∧
      (∀ key, (retryingFetch plainWorld (jobFor "ftp://host/data.zip") secondTime (fun _ => none)).bucket key = none) ∧
      ¬ Reports plainWorld (jobFor "ftp://host/data.zip") secondTime (fun _ => none) := by
  refine ⟨rfl, fun _ => rfl, ?_⟩
  rintro ⟨node, result, -, hw, -, hd⟩
  have hr : ⟨.done, none, some "Success"⟩ = result := (Prod.mk.inj (cons.inj hw).1).2
  subst hr
  obtain ⟨url, src, dst, hurl, -, -, ht⟩ := hd rfl
  obtain rfl : splitUrl "ftp://host/data.zip" = url := Except.ok.inj hurl
  rw [if_neg (by decide)] at ht
  exact ht.2

end BenchmarkAi.FetcherJob
