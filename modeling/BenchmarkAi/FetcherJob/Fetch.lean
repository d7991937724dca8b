import BenchmarkAi.FetcherJob.Transfer
import Mathlib.Logic.Function.Basic
/-!
# The fetcher job

`retrying_fetch`: the choice by the scheme of the source, the download over HTTP, the
copies between buckets, the retries, and the status that is written to the node. What
the libraries answer is part of an attempt, so an attempt can go wrong at any call.
-/

namespace BenchmarkAi.FetcherJob

/-! ## Inputs -/

structure Url where
  scheme : String
  netloc : String
  path : String
deriving DecidableEq, Repr

/-- What stays the same over the attempts. `urlparse` may raise a `ValueError`; `objects`
lists the source buckets in the order of their keys. -/
structure World where
  s3 : S3
  urlparse : String → Except String Url
  objects : String → List (String × Stored)
  nodup : ∀ bucket, ((objects bucket).map Prod.fst).Nodup

structure FetcherJobConfig where
  src : String
  dst : String
  md5 : Option String := none
  zk_node_path : Option String := none
  max_attempts : Nat := 5

abbrev Bucket := String → Option Stored

inductive Response
  | response (status : Nat) (body : Bytes)
  | curlError
  | other (message : String)
deriving DecidableEq, Repr

structure CopyCalls where
  next : Reply := .ok
  dstEtag : Reply := .ok
  srcEtag : Reply := .ok
  copy : Write := .ok
  parts : Nat := 0

structure Attempt where
  http : Response
  contentLength : Reply := .ok
  listing : Reply := .ok
  download : Reply := .ok
  operations : Operations := {}
  objects : Nat → CopyCalls := fun _ => {}

/-! ## HTTP -/

def checkStatus (status : Nat) : Except Raised Unit :=
  match status - status % 100 with
  | 100 | 200 | 300 => .ok ()
  | 400 => .error .httpClientError
  | 500 => .error .httpServerError
  | family => .error (.other (toString family ++ " is not a valid HTTPFamily"))

def httpDownload : Response → Except Raised Bytes
  | .response status body => (checkStatus status).map fun _ => body
  | .curlError => .error .curlError
  | .other message => .error (.other message)

/-! ## S3 -/

structure S3Object where
  bucket : String
  key : String
deriving DecidableEq, Repr

def S3Object.parse (w : World) (url : String) : Except Raised S3Object :=
  match w.urlparse url with
  | .error message => .error (.other message)
  | .ok u => .ok ⟨u.netloc, String.ofList (u.path.toList.drop 1)⟩

def listed (w : World) (o : S3Object) : List (String × Stored) :=
  (w.objects o.bucket).filter fun kv => o.key.toList.isPrefixOf kv.1.toList

def isS3File (w : World) (a : Attempt) (o : S3Object) : Except Raised Bool :=
  match a.contentLength with
  | .other message => .error (.other message)
  | .ok =>
    match (w.objects o.bucket).lookup o.key with
    | some found => if 0 < found.content.length then .ok true else scan
    | none => scan
  | .clientError => scan
where
  scan : Except Raised Bool :=
    match a.listing with
    | .other message => .error (.other message)
    | .clientError => .error (.s3Error "")
    | .ok =>
      match listed w o with
      | [] => .error (.s3Error "Object not found")
      | subs => .ok (subs.all fun kv => kv.1 = o.key)

def downloadFromS3 (w : World) (a : Attempt) (o : S3Object) : Except Raised Bytes :=
  match a.download with
  | .other message => .error (.other message)
  | .clientError => .error (.s3Error "")
  | .ok =>
    match (w.objects o.bucket).lookup o.key with
    | some found => .ok found.content
    | none => .error (.s3Error "")

def Write.raised : Write → Except Raised Unit
  | .ok => .ok ()
  | .clientError _ => .error .clientError
  | .other message _ => .error (.other message)

def copyUnlessSame (s3 : S3) (calls : CopyCalls) (src : Stored) (etag : Option String) (dst : Option Stored) :
    Option Stored × Except Raised Unit :=
  if etag = some (s3.etag src.content src.parts) then (dst, .ok ())
  else (if calls.copy.takesEffect then some ⟨src.content, calls.parts, src.tags⟩ else dst, calls.copy.raised)

/-- `_s3_to_s3_check_etag`. The source is `none` when there is no such object. -/
def s3ToS3CheckEtag (s3 : S3) (calls : CopyCalls) (src dst : Option Stored) : Option Stored × Except Raised Unit :=
  match calls.dstEtag with
  | .other message => (dst, .error (.other message))
  | dstReply =>
    let new_obj_etag := if dstReply = .ok then dst.map fun o => s3.etag o.content o.parts else none
    match calls.srcEtag, src with
    | .other message, _ => (dst, .error (.other message))
    | .clientError, _ | .ok, none => (dst, .error .clientError)
    | .ok, some src => copyUnlessSame s3 calls src new_obj_etag dst

def atKey (key : String) (f : Option Stored → Option Stored × Except Raised Unit) (dst : Bucket) :
    Bucket × Except Raised Unit :=
  (Function.update dst key (f (dst key)).1, (f (dst key)).2)

def s3ToS3Single (w : World) (a : Attempt) (src dst : S3Object) : Bucket → Bucket × Except Raised Unit :=
  atKey dst.key (s3ToS3CheckEtag w.s3 (a.objects 0) ((w.objects src.bucket).lookup src.key))

/-- Every occurrence is replaced, from the left; `skip` characters belong to one. -/
def replaceFrom (old new : List Char) : Nat → List Char → List Char
  | _, [] => []
  | skip + 1, _ :: cs => replaceFrom old new skip cs
  | 0, c :: cs =>
    if old.isPrefixOf (c :: cs) then new ++ replaceFrom old new (old.length - 1) cs
    else c :: replaceFrom old new 0 cs

def replace (s old new : String) : String :=
  if old = "" then String.ofList (s.toList.flatMap (fun c => new.toList ++ [c]) ++ new.toList)
  else String.ofList (replaceFrom old.toList new.toList 0 s.toList)

/-- The loop of `s3_to_s3_deep`, from the `i`-th object on. The summary in the listing has the ETag. -/
def copyListed (w : World) (a : Attempt) (src dst : S3Object) :
    Nat → List (String × Stored) → Bucket → Bucket × Except Raised Unit
  | _, [], bucket => (bucket, .ok ())
  | i, (key, o) :: rest, bucket =>
    match (a.objects i).next with
    | .other message => (bucket, .error (.other message))
    | .clientError => (bucket, .error .clientError)
    | .ok =>
      match atKey (replace key src.key dst.key)
          (s3ToS3CheckEtag w.s3 { a.objects i with srcEtag := .ok } (some o)) bucket with
      | (bucket, .error e) => (bucket, .error e)
      | (bucket, .ok ()) => copyListed w a src dst (i + 1) rest bucket

def s3ToS3Deep (w : World) (a : Attempt) (src dst : S3Object) : Bucket → Bucket × Except Raised Unit :=
  copyListed w a src dst 0 (listed w src)

/-! ## One attempt -/

def transferTo (w : World) (cfg : FetcherJobConfig) (a : Attempt) (download : Except Raised Bytes) (dst : S3Object) :
    Bucket → Bucket × Except Raised Unit :=
  atKey dst.key (transferToS3 w.s3 { a.operations with md5 := cfg.md5, download })

def withType (type : FetchedType) (r : Bucket × Except Raised Unit) : Bucket × Except Raised (Option FetchedType) :=
  (r.1, r.2.map fun _ => some type)

def s3ToS3 (w : World) (cfg : FetcherJobConfig) (a : Attempt) (src dst : S3Object) (bucket : Bucket) :
    Bucket × Except Raised (Option FetchedType) :=
  match isS3File w a src with
  | .error e => (bucket, .error e)
  | .ok true =>
    withType .file
      (if truthy cfg.md5 then transferTo w cfg a (downloadFromS3 w a src) dst bucket
       else s3ToS3Single w a src dst bucket)
  | .ok false => withType .directory (s3ToS3Deep w a src dst bucket)

/-- `_fetch`. A scheme that is none of the three is no error. -/
def fetch (w : World) (cfg : FetcherJobConfig) (a : Attempt) (bucket : Bucket) :
    Bucket × Except Raised (Option FetchedType) :=
  match w.urlparse cfg.src with
  | .error message => (bucket, .error (.other message))
  | .ok src =>
    if src.scheme = "http" ∨ src.scheme = "https" then
      match S3Object.parse w cfg.dst with
      | .error e => (bucket, .error e)
      | .ok dst => withType .file (transferTo w cfg a (httpDownload a.http) dst bucket)
    else if src.scheme = "s3" then
      match S3Object.parse w cfg.src, S3Object.parse w cfg.dst with
      | .error e, _ | _, .error e => (bucket, .error e)
      | .ok src, .ok dst => s3ToS3 w cfg a src dst bucket
    else (bucket, .ok none)

/-! ## Attempts and status -/

def Raised.retryable : Raised → Bool
  | .httpServerError => true
  | _ => false

def Raised.answered : Raised → Bool
  | .clientError | .other _ => false
  | _ => true

def Raised.str : Raised → String
  | .s3Error message | .other message => message
  | _ => ""

def retryFetch (w : World) (cfg : FetcherJobConfig) (attempts : Nat → Attempt) :
    Nat → Nat → Bucket → Bucket × Except Raised (Option FetchedType)
  | 0, n, bucket => fetch w cfg (attempts n) bucket
  | left + 1, n, bucket =>
    match fetch w cfg (attempts n) bucket with
    | (bucket, .error e) => if e.retryable then retryFetch w cfg attempts left (n + 1) bucket else (bucket, .error e)
    | r => r

structure Ended where
  bucket : Bucket
  written : List (String × FetcherResult)
  raised : Option Raised := none

def updateZkNode (cfg : FetcherJobConfig) (r : FetcherResult) : List (String × FetcherResult) :=
  if truthy cfg.zk_node_path then [(pyStr cfg.zk_node_path, r)] else []

def retryingFetch (w : World) (cfg : FetcherJobConfig) (attempts : Nat → Attempt) (bucket : Bucket) : Ended :=
  match retryFetch w cfg attempts (cfg.max_attempts - 1) 1 bucket with
  | (bucket, .ok fetched_type) => ⟨bucket, updateZkNode cfg ⟨.done, fetched_type, some "Success"⟩, none⟩
  | (bucket, .error e) =>
    if e.answered then ⟨bucket, updateZkNode cfg ⟨.failed, none, some e.str⟩, none⟩ else ⟨bucket, [], some e⟩

end BenchmarkAi.FetcherJob
