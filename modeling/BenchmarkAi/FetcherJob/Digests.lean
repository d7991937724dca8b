import BenchmarkAi.FetcherJob.Transfer
/-!
# Digests in one pass

`calculate_md5_and_etag` of `bai_io_utils/md5sum.py` reads a file once. One hash object is fed with
all of it, and each chunk has a digest of its own; that of the first chunk is taken from the hash
object while it has seen nothing else. `digests_of_content` says that the pair that is returned
depends on the content and its chunks only.
-/

open List

namespace BenchmarkAi.FetcherJob

/-! ## Hash objects and files -/

/-- `hashlib`: a new hash object, `update`, `digest` and `hexdigest`. Nothing is known of the digests
but that they depend on the bytes that the object has been fed with, and not on the pieces. -/
structure Hashlib (σ : Type) extends Md5 where
  new : σ
  update : σ → Bytes → σ
  digestOf : σ → Bytes
  hexdigestOf : σ → String
  digestOf_updates : ∀ pieces : List Bytes, digestOf (pieces.foldl update new) = digest pieces.flatten
  hexdigestOf_updates : ∀ pieces : List Bytes, hexdigestOf (pieces.foldl update new) = hex (digest pieces.flatten)

structure File where
  content : Bytes
  position : Nat := 0

def File.read (fp : File) (size : Nat) : Bytes × File :=
  let data := (fp.content.drop fp.position).take size
  (data, { fp with position := fp.position + data.length })

def File.rewind (fp : File) : File := { fp with position := 0 }

/-! ## The loop -/

structure Streaming (σ : Type) where
  global_hash : σ
  md5s : List Bytes := []
  first : Bool := true

section Loop
variable {σ : Type} (lib : Hashlib σ)

def Streaming.next (s : Streaming σ) (data : Bytes) : Streaming σ :=
  let global_hash := lib.update s.global_hash data
  if s.first then ⟨global_hash, s.md5s ++ [lib.digestOf global_hash], false⟩
  else ⟨global_hash, s.md5s ++ [lib.digestOf (lib.update lib.new data)], false⟩

/-- The loop over `iter(lambda: fp.read(chunk_size), b"")`, with at most as many reads. -/
def streamFile (chunk_size : Nat) : Nat → File → Streaming σ → Option (Streaming σ)
  | 0, _, _ => none
  | reads + 1, fp, s =>
    match fp.read chunk_size with
    | ([], _) => some s
    | (data, fp) => streamFile chunk_size reads fp (s.next lib data)

def Streaming.pair (s : Streaming σ) : DigestPair :=
  let joining_etag_hash := lib.update lib.new s.md5s.flatten
  let global_md5 := lib.hexdigestOf s.global_hash
  { md5 := global_md5
    s3_etag :=
      if 1 < s.md5s.length then lib.hexdigestOf joining_etag_hash ++ "-" ++ toString s.md5s.length else global_md5 }

def streamMd5AndEtag (reads : Nat) (fp : File) (chunk_size : Nat) : Option DigestPair :=
  (streamFile lib chunk_size reads fp.rewind ⟨lib.new, [], true⟩).map (·.pair lib)

end Loop

/-! ## Chunks -/

/-- The consecutive chunks of a content: all have the size but the last one, which may be smaller. -/
structure Chunks (size : Nat) (content : Bytes) (chunks : List Bytes) : Prop where
  flatten : chunks.flatten = content
  full : ∀ chunk ∈ chunks.dropLast, chunk.length = size
  last : ∀ chunk ∈ chunks.getLast?, chunk ≠ [] ∧ chunk.length ≤ size

section Chunks
variable {size : Nat} {content data : Bytes} {chunks : List Bytes}

theorem chunks_nil_iff : Chunks size content [] ↔ content = [] :=
  ⟨fun h => h.flatten.symm, fun h => ⟨h.symm, nofun, nofun⟩⟩

theorem Chunks.cons (hd : data ≠ []) (hs : data.length ≤ size) (hf : content ≠ [] → data.length = size)
    (h : Chunks size content chunks) : Chunks size (data ++ content) (data :: chunks) := by
  cases chunks with
  | nil =>
    obtain rfl := chunks_nil_iff.1 h
    refine ⟨by simp, nofun, fun chunk hc => ?_⟩
    obtain rfl : data = chunk := by simpa using hc
    exact ⟨hd, hs⟩
  | cons other chunks =>
    refine ⟨by rw [flatten_cons, h.flatten], ?_, ?_⟩
    · rw [dropLast_cons_cons, forall_mem_cons]
      refine ⟨hf fun hnil => ?_, h.full⟩
      -- the other chunks are not empty
      have hl := h.last _ (getLast?_eq_some_getLast (cons_ne_nil other chunks))
      rw [← h.flatten, flatten_eq_nil_iff] at hnil
      exact hl.1 (hnil _ (getLast_mem _))
    · exact h.last

theorem chunks_readChunks (hs : 1 ≤ size) {fuel} (hf : content.length ≤ fuel) :
    Chunks size content (readChunks size fuel content) := by
  induction fuel generalizing content with
  | zero => exact chunks_nil_iff.2 (eq_nil_of_length_eq_zero (Nat.le_zero.1 hf))
  | succ fuel ih =>
    rw [readChunks]
    split
    · rename_i hnil
      exact chunks_nil_iff.2 ((take_eq_nil_iff.1 hnil).resolve_left (by omega))
    · rename_i hd
      have hdr : (content.drop size).length ≤ fuel := by
        rw [length_drop]
        omega
      have hc := (ih hdr).cons hd (length_take_le size content) fun hr => ?_
      · rwa [take_append_drop] at hc
      · rw [length_take]
        have : size < content.length := by simpa using hr
        omega

end Chunks

/-! ## The digests of the chunks -/

section Digests
variable {h : Md5}

theorem md5s_foldl (chunks : List Bytes) {d : Digesting} (hd : d.first = false) :
    (chunks.foldl (Digesting.next h) d).md5s = d.md5s ++ chunks.map h.digest := by
  induction chunks generalizing d with
  | nil => simp
  | cons data chunks ih =>
    have hn : Digesting.next h d data = ⟨d.global ++ data, d.md5s ++ [h.digest data], false⟩ := by
      rw [Digesting.next, hd]
      rfl
    rw [foldl_cons, hn, ih rfl, append_assoc]
    rfl

/-- The hash object has seen the first chunk only when its digest is taken. -/
theorem md5s_chunks (chunks : List Bytes) : (chunks.foldl (Digesting.next h) {}).md5s = chunks.map h.digest := by
  cases chunks with
  | nil => rfl
  | cons data chunks => exact md5s_foldl chunks rfl

/-- The ETag that S3 gives to an object of these parts, if it has more than one. -/
def Md5.joined (h : Md5) (chunks : List Bytes) : String :=
  h.md5 (chunks.map h.digest).flatten ++ "-" ++ toString chunks.length

theorem calculate_chunks (content : Bytes) {size} (hs : 1 ≤ size) :
    calculateMd5AndEtag h content size = ⟨h.md5 content,
      if (readChunks size content.length content).length ≤ 1 then h.md5 content
      else h.joined (readChunks size content.length content)⟩ := by
  rw [calculateMd5AndEtag]
  simp only [global_foldl, md5s_chunks, flatten_readChunks hs _ _ (Nat.le_refl content.length), nil_append,
    length_map, Md5.joined]
  split
  · rw [if_neg (by omega)]
  · rw [if_pos (by omega)]

end Digests

/-! ## The loop computes them -/

section Refinement
variable {σ : Type} {lib : Hashlib σ}

structure Fed (lib : Hashlib σ) (s : Streaming σ) (d : Digesting) : Prop where
  pieces : ∃ pieces : List Bytes, s.global_hash = pieces.foldl lib.update lib.new ∧ pieces.flatten = d.global
  md5s : s.md5s = d.md5s
  first : s.first = d.first

theorem Fed.next {s : Streaming σ} {d : Digesting} (hfed : Fed lib s d) (data : Bytes) :
    Fed lib (s.next lib data) (d.next lib.toMd5 data) := by
  obtain ⟨⟨pieces, hg, hf⟩, hmd5s, hfi⟩ := hfed
  have hp : lib.update s.global_hash data = (pieces ++ [data]).foldl lib.update lib.new := by
    rw [foldl_append, hg]
    rfl
  have hb : (pieces ++ [data]).flatten = d.global ++ data := by simp [hf]
  have hd : lib.digestOf (lib.update s.global_hash data) = lib.digest (d.global ++ data) := by
    rw [hp, lib.digestOf_updates, hb]
  have hc : lib.digestOf (lib.update lib.new data) = lib.digest data := by
    simpa using lib.digestOf_updates [data]
  rw [Streaming.next, Digesting.next, hfi, hd, hc, hmd5s]
  split
  · exact ⟨⟨_, hp, hb⟩, rfl, rfl⟩
  · exact ⟨⟨_, hp, hb⟩, rfl, rfl⟩

theorem Fed.foldl (chunks : List Bytes) {s : Streaming σ} {d} (hfed : Fed lib s d) :
    Fed lib (chunks.foldl (fun s data => s.next lib data) s) (chunks.foldl (Digesting.next lib.toMd5) d) := by
  induction chunks generalizing s d with
  | nil => exact hfed
  | cons data chunks ih => exact ih (hfed.next data)

theorem drop_read (size : Nat) (rest : Bytes) : rest.drop (rest.take size).length = rest.drop size := by
  rw [length_take]
  rcases Nat.le_total size rest.length with hle | hle
  · rw [Nat.min_eq_left hle]
  · rw [Nat.min_eq_right hle, drop_length, drop_eq_nil_of_le hle]

theorem streamFile_eq {size fuel reads} {fp : File} (hf : (fp.content.drop fp.position).length ≤ fuel)
    (hr : fuel < reads) (s : Streaming σ) : streamFile lib size reads fp s =
      some ((readChunks size fuel (fp.content.drop fp.position)).foldl (fun s data => s.next lib data) s) := by
  induction fuel generalizing reads fp s with
  | zero =>
    obtain ⟨reads, rfl⟩ := Nat.exists_eq_succ_of_ne_zero (by omega : reads ≠ 0)
    have hend : fp.content.drop fp.position = [] := eq_nil_of_length_eq_zero (Nat.le_zero.1 hf)
    rw [streamFile, File.read, hend, take_nil]
    rfl
  | succ fuel ih =>
    obtain ⟨reads, rfl⟩ := Nat.exists_eq_succ_of_ne_zero (by omega : reads ≠ 0)
    rw [streamFile, File.read, readChunks]
    cases hd : (fp.content.drop fp.position).take size with
    | nil => rfl
    | cons b data =>
      have hn : fp.content.drop (fp.position + (b :: data).length) = (fp.content.drop fp.position).drop size := by
        rw [← hd, ← drop_drop, drop_read]
      have hl : (fp.content.drop (fp.position + (b :: data).length)).length ≤ fuel := by
        rw [length_drop, length_cons] at *
        omega
      rw [if_neg (cons_ne_nil b data), ← hn]
      exact ih hl (by omega) _

/-- `calculate_md5_and_etag` ends, and its result is that of the chunks. -/
theorem streamMd5AndEtag_eq (fp : File) (size : Nat) {reads} (hr : fp.content.length < reads) :
    streamMd5AndEtag lib reads fp size = some (calculateMd5AndEtag lib.toMd5 fp.content size) := by
  have hs := @streamFile_eq σ lib size fp.content.length reads fp.rewind (Nat.le_refl _) hr ⟨lib.new, [], true⟩
  have hfed : Fed lib ⟨lib.new, [], true⟩ {} := ⟨⟨[], rfl, rfl⟩, rfl, rfl⟩
  obtain ⟨⟨pieces, hg, hf⟩, hmd5s, -⟩ := hfed.foldl (readChunks size fp.content.length fp.content)
  have hj (bytes : Bytes) : lib.hexdigestOf (lib.update lib.new bytes) = lib.md5 bytes := by
    simpa [Md5.md5] using lib.hexdigestOf_updates [bytes]
  rw [streamMd5AndEtag, hs, Option.map_some, Streaming.pair]
  simp only [File.rewind, drop_zero, hg, hmd5s, lib.hexdigestOf_updates, hf, hj]
  rfl

end Refinement

/-- Whatever the content and the size of the chunks: the MD5 is that of the whole content, and the ETag is
the MD5 too if there is at most one chunk, and otherwise that of the digests of the chunks, with their
number. -/
theorem digests_of_content {σ : Type} (lib : Hashlib σ) (fp : File) {chunk_size : Nat} (hsize : 1 ≤ chunk_size) :
    ∃ chunks, Chunks chunk_size fp.content chunks ∧ ∃ n, ∀ reads ≥ n, streamMd5AndEtag lib reads fp chunk_size = some {
        md5 := lib.hex (lib.digest fp.content)
        s3_etag :=
          if chunks.length ≤ 1 then lib.hex (lib.digest fp.content)
          else lib.hex (lib.digest (chunks.map lib.digest).flatten) ++ "-" ++ toString chunks.length } := by
  refine ⟨_, chunks_readChunks hsize (Nat.le_refl fp.content.length), fp.content.length + 1, fun reads hr => ?_⟩
  rw [streamMd5AndEtag_eq fp chunk_size hr, calculate_chunks fp.content hsize]
  rfl

theorem foldl_append_eq_flatten (pieces : List Bytes) : pieces.foldl (· ++ ·) [] = pieces.flatten := by
  have hmap : pieces.foldl (fun bytes data => bytes ++ id data) [] = [] ++ (pieces.map id).flatten :=
    foldl_append_eq_append
  simpa using hmap

def plainHashlib : Hashlib Bytes where
  toMd5 := plainMd5
  new := []
  update := (· ++ ·)
  digestOf := plainMd5.digest
  hexdigestOf bytes := plainMd5.md5 bytes
  digestOf_updates pieces := congrArg plainMd5.digest (foldl_append_eq_flatten pieces)
  hexdigestOf_updates pieces := congrArg plainMd5.md5 (foldl_append_eq_flatten pieces)

/-- Five bytes in chunks of two, from a file that has been read before. -/
theorem digests_of_five_bytes : ∃ chunks, Chunks 2 [1, 2, 3, 4, 5] chunks ∧ ∃ n, ∀ reads ≥ n,
    streamMd5AndEtag plainHashlib reads ⟨[1, 2, 3, 4, 5], 3⟩ 2 = some {
      md5 := plainMd5.md5 [1, 2, 3, 4, 5]
      s3_etag :=
        if chunks.length ≤ 1 then plainMd5.md5 [1, 2, 3, 4, 5]
        else plainMd5.md5 (chunks.map plainMd5.digest).flatten ++ "-" ++ toString chunks.length } :=
  digests_of_content plainHashlib ⟨[1, 2, 3, 4, 5], 3⟩ (by decide)

end BenchmarkAi.FetcherJob
