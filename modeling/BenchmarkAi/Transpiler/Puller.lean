import Mathlib.Data.List.Infix
import BenchmarkAi.Fetcher.Gate
import BenchmarkAi.Lib.ShellWords
import BenchmarkAi.Transpiler.VolumeTheorems
/-!
# The arguments of the pullers

The transpiler writes the files for a puller into one argument, and the script
`puller/download-s3-files` reads them back by splitting it into words. Nothing is escaped,
so what is read is what was meant exactly when no part of it has a separator. For each file a
command is put together and given to `eval`, which reads the address in it once more.
-/

open Lib Lib.Words Lib.ShellWords List

namespace BenchmarkAi.Transpiler

/-! ## The script -/

structure PullerFile where
  S3FILE : String
  PERMS : String
  TARGET : String
  UNPACK : String
deriving DecidableEq, Repr

def piece (PIECES : List (List Char)) (i : Nat) : String := String.ofList (PIECES[i]?.getD [])

/-- `PIECES=(${file//,/ })` and its first four elements. Wildcards are left out, since they are
expanded where a file of the working directory has such a name. -/
def pullerFile (file : List Char) : PullerFile :=
  let PIECES := wordsAt ',' file
  ⟨piece PIECES 0, piece PIECES 1, piece PIECES 2, piece PIECES 3⟩

def pullerFiles (USER_FILES : String) : List PullerFile := (wordsAt ':' USER_FILES.toList).map pullerFile

def asksForHelp (BUCKET : String) : Bool := (" " ++ BUCKET ++ " ").toList <:+: " --help -h help ".toList

/-- Where the script runs: `is_prefix` asks the bucket whether a key has others below it. -/
structure Puller where
  shell : ShellWords.Env
  S3_ENDPOINT : String
  isPre : String → String → Bool

/-- A file of the loop, and the command that `eval` runs for it, if it is one. -/
structure Copy where
  file : PullerFile
  command : Option (List (List Char))
deriving DecidableEq, Repr

namespace Puller
variable (p : Puller) (BUCKET : String)

def S3_ENDPOINT_ARG : String := if p.S3_ENDPOINT = "" then "" else "--endpoint-url=" ++ p.S3_ENDPOINT

def verb (f : PullerFile) : String := if p.isPre BUCKET f.S3FILE then "sync" else "cp"

def CMD (f : PullerFile) : String :=
  "aws s3 " ++ p.verb BUCKET f ++ " s3://" ++ BUCKET ++ "/" ++ f.S3FILE ++ " " ++ f.TARGET ++ " " ++ p.S3_ENDPOINT_ARG

def copyOf (f : PullerFile) : Option Copy :=
  if f.S3FILE = "" then none
  else
    let f := if f.TARGET = "" then { f with TARGET := "/data/" ++ f.S3FILE } else f
    -- `eval $CMD`: the text is split into words, and each of them is read
    some ⟨f, p.shell.readCommand (words (p.CMD BUCKET f).toList)⟩

/-- The script, as long as its commands succeed. -/
def copies (USER_FILES : String) : List Copy :=
  if asksForHelp BUCKET then [] else (pullerFiles USER_FILES).filterMap (p.copyOf BUCKET)

end Puller

/-! ## What is meant -/

structure Clean (s : String) : Prop where
  word : IsWord s.toList
  colon : ':' ∉ s.toList
  comma : ',' ∉ s.toList

instance (s : String) : Decidable (Clean s) :=
  decidable_of_iff (IsWord s.toList ∧ ':' ∉ s.toList ∧ ',' ∉ s.toList)
    ⟨fun ⟨h₁, h₂, h₃⟩ => ⟨h₁, h₂, h₃⟩, fun h => ⟨h.word, h.colon, h.comma⟩⟩

def PullerFile.encode (f : PullerFile) : String :=
  ",".intercalate ([f.S3FILE, f.PERMS, f.TARGET] ++ if f.UNPACK = "" then [] else [f.UNPACK])

def encodeFiles (files : List PullerFile) : String := ":".intercalate (files.map (·.encode))

def dataFiles (config : BaiConfig) (data_sources : List DownloadableContent) (objects : List String) :
    List PullerFile :=
  (data_sources.zip objects).map fun (s, object) =>
    ⟨object, config.puller_mount_chmod, ((getDataMounts data_sources).lookup s.path).getD "", ""⟩

def scriptFiles (objects : List String) : List PullerFile :=
  objects.mapIdx fun i object => ⟨object, scriptPullerChmod, scriptsMountPath ++ s!"/s{i}", scriptUnpackModificator⟩

def location (bucket key : String) : List Char := "s3://".toList ++ bucket.toList ++ '/' :: key.toList

def Puller.endpoint (p : Puller) : List (List Char) :=
  if p.S3_ENDPOINT = "" then [] else [p.S3_ENDPOINT_ARG.toList]

def Puller.meant (p : Puller) (bucket : String) (f : PullerFile) : Copy where
  file := f
  command := some (["aws".toList, "s3".toList, (p.verb bucket f).toList] ++ location bucket f.S3FILE :: (f.TARGET.toList :: p.endpoint))

/-- The address of the file has nothing in it that means something to the shell. -/
def Puller.Literal (p : Puller) (bucket key : String) : Prop :=
  literal (location bucket key) = true ∧ p.shell.braces (location bucket key) = [location bucket key]

/-- The endpoint, if there is one, is a word that stands for itself. -/
def Puller.KnownEndpoint (p : Puller) : Prop := ∀ w ∈ p.endpoint, IsWord w ∧ p.shell.readWord w = some [w]

/-! ## Reading back -/

variable {w file : List Char} {ps : List String} {f : PullerFile} {files : List PullerFile} {a : String × String}

theorem piece_eq_of_get? {PIECES i} (h : PIECES[i]? = some w) : piece PIECES i = String.ofList w := by
  rw [piece, h]
  rfl

theorem clean_of_mem_wordsAt (hf : ':' ∉ file) (hw : w ∈ wordsAt ',' file) : Clean (String.ofList w) := by
  have hch := of_mem_wordsAt hw
  refine ⟨?_, ?_, ?_⟩ <;> rw [String.toList_ofList]
  · exact isWord_of_mem hw
  · exact fun hc => hf (hch _ hc).1
  · exact fun hc => (hch _ hc).2 rfl

/-- With a target there is a key and a mode, and these are words. -/
theorem clean_of_target (hf : ':' ∉ file) (ht : (pullerFile file).TARGET ≠ "") :
    Clean (pullerFile file).S3FILE ∧ Clean (pullerFile file).PERMS := by
  have hlen : 2 < (wordsAt ',' file).length := by
    by_contra hle
    refine ht ?_
    show piece (wordsAt ',' file) 2 = ""
    rw [piece, getElem?_eq_none (Nat.le_of_not_lt hle)]
    rfl
  have hp (i : Nat) (hi : i < (wordsAt ',' file).length) : Clean (piece (wordsAt ',' file) i) := by
    rw [piece_eq_of_get? (getElem?_eq_getElem hi)]
    exact clean_of_mem_wordsAt hf (getElem_mem hi)
  exact ⟨hp 0 (by omega), hp 1 (by omega)⟩

theorem colon_not_mem_file {USER_FILES} (h : file ∈ wordsAt ':' USER_FILES) : ':' ∉ file :=
  fun hc => (of_mem_wordsAt h _ hc).2 rfl

theorem word_of_pieces (hne : ps ≠ []) (h : ∀ p ∈ ps, Clean p) :
    IsWord (",".intercalate ps).toList ∧ ':' ∉ (",".intercalate ps).toList := by
  rw [String.toList_intercalate]
  constructor
  · refine isWord_intercalate (by decide) (by simpa using hne) fun w hw => ?_
    obtain ⟨p, hp, rfl⟩ := mem_map.1 hw
    exact (h p hp).word
  · intro hc
    rcases mem_intercalate hc with hc | ⟨w, hw, hc⟩
    · cases hc
    · obtain ⟨p, hp, rfl⟩ := mem_map.1 hw
      exact (h p hp).colon hc

theorem wordsAt_pieces (h : ∀ p ∈ ps, Clean p) : wordsAt ',' (",".intercalate ps).toList = ps.map (·.toList) := by
  rw [String.toList_intercalate]
  refine wordsAt_intercalate fun w hw => ?_
  obtain ⟨p, hp, rfl⟩ := mem_map.1 hw
  exact ⟨(h p hp).word, (h p hp).comma⟩

structure PullerFile.Clean (f : PullerFile) : Prop where
  key : Transpiler.Clean f.S3FILE
  perms : Transpiler.Clean f.PERMS
  target : Transpiler.Clean f.TARGET
  unpack : f.UNPACK = "" ∨ Transpiler.Clean f.UNPACK

theorem PullerFile.Clean.pieces (h : f.Clean) :
    ∀ p ∈ [f.S3FILE, f.PERMS, f.TARGET] ++ (if f.UNPACK = "" then [] else [f.UNPACK]), Transpiler.Clean p := by
  intro p hp
  simp only [mem_append, mem_cons, not_mem_nil, or_false] at hp
  rcases hp with (rfl | rfl | rfl) | hp
  · exact h.key
  · exact h.perms
  · exact h.target
  · split at hp
    · cases hp
    · rename_i hne
      obtain rfl := mem_singleton.1 hp
      exact h.unpack.resolve_left hne

theorem pullerFile_encode (h : f.Clean) : pullerFile f.encode.toList = f := by
  obtain ⟨key, perms, target, unpack⟩ := f
  rw [pullerFile, PullerFile.encode, wordsAt_pieces h.pieces]
  by_cases hu : unpack = ""
  · subst hu
    simp [piece, String.ofList_toList]
  · simp [piece, String.ofList_toList, hu]

/-- A target as the transpiler makes them. -/
structure PullerFile.KnownTarget (f : PullerFile) : Prop where
  clean : Transpiler.Clean f.TARGET
  unpack : f.UNPACK = "" ∨ Transpiler.Clean f.UNPACK
  plain : Plain f.TARGET.toList
  not_default : ∀ key, f.TARGET ≠ "/data/" ++ key

/-- Files with a clean target are read back exactly if they are clean in full. -/
theorem pullerFiles_encode_iff (h : ∀ f ∈ files, f.KnownTarget) :
    pullerFiles (encodeFiles files) = files ↔ ∀ f ∈ files, Clean f.S3FILE ∧ Clean f.PERMS := by
  constructor
  · intro heq f hf
    rw [← heq] at hf
    obtain ⟨file, hfi, rfl⟩ := mem_map.1 hf
    have hmem : pullerFile file ∈ files := heq ▸ hf
    refine clean_of_target (colon_not_mem_file hfi) fun he => ?_
    have hwd := (h _ hmem).clean.word.1
    rw [he] at hwd
    exact hwd rfl
  · intro hc
    have hall : ∀ f ∈ files, f.Clean := fun f hf =>
      ⟨(hc f hf).1, (hc f hf).2, (h f hf).clean, (h f hf).unpack⟩
    have hwo : wordsAt ':' (encodeFiles files).toList = (files.map (·.encode)).map (·.toList) := by
      rw [encodeFiles, String.toList_intercalate]
      refine wordsAt_intercalate fun w hw => ?_
      rw [map_map, mem_map] at hw
      obtain ⟨f, hf, rfl⟩ := hw
      exact word_of_pieces (by simp) (hall f hf).pieces
    rw [pullerFiles, hwo, map_map, map_map]
    have hmap : files.map (pullerFile ∘ (·.toList) ∘ PullerFile.encode) = files.map id :=
      map_congr_left fun f hf => pullerFile_encode (hall f hf)
    exact hmap.trans (map_id files)

theorem Clean.ne_empty {s} (h : Clean s) : s ≠ "" := by
  rintro rfl
  exact h.word.1 rfl

section Copies
variable {p : Puller} {bucket : String}

theorem isWord_location (hb : ∀ c ∈ bucket.toList, blank c = false) (hk : IsWord f.S3FILE.toList) :
    IsWord (location bucket f.S3FILE) := by
  refine ⟨by simp [location], fun c hc => ?_⟩
  rw [location, mem_append, mem_append, mem_cons] at hc
  rcases hc with (hc | hc) | rfl | hc
  · exact (by decide : IsWord "s3://".toList).2 c hc
  · exact hb c hc
  · rfl
  · exact hk.2 c hc

theorem words_CMD (hend : p.KnownEndpoint) (hb : ∀ c ∈ bucket.toList, blank c = false) (hk : Clean f.S3FILE) (ht : Clean f.TARGET) :
    words (p.CMD bucket f).toList =
      ["aws".toList, "s3".toList, (p.verb bucket f).toList] ++ location bucket f.S3FILE :: (f.TARGET.toList :: p.endpoint) := by
  have htext : (p.CMD bucket f).toList = "aws".toList ++ ' ' :: ("s3".toList ++ ' ' :: ((p.verb bucket f).toList ++
      ' ' :: (location bucket f.S3FILE ++ ' ' :: (f.TARGET.toList ++ ' ' :: p.S3_ENDPOINT_ARG.toList)))) := by
    simp [Puller.CMD, location]
  have hverb : IsWord (p.verb bucket f).toList := by
    unfold Puller.verb
    split <;> decide
  have hlast : words p.S3_ENDPOINT_ARG.toList = p.endpoint := by
    unfold Puller.KnownEndpoint Puller.endpoint at *
    split
    · rename_i he
      rw [Puller.S3_ENDPOINT_ARG, if_pos he]
      rfl
    · rename_i he
      rw [if_neg he] at hend
      exact words_of_isWord (hend _ (mem_singleton_self _)).1
  rw [htext]
  repeat rw [words_append_blank (by decide)]
  rw [words_of_isWord hverb, words_of_isWord (isWord_location hb hk.word), words_of_isWord ht.word, hlast]
  rfl

theorem command_iff (hend : p.KnownEndpoint) (hb : ∀ c ∈ bucket.toList, blank c = false) (hk : Clean f.S3FILE)
    (ht : f.KnownTarget) :
    p.shell.readCommand (words (p.CMD bucket f).toList) = (p.meant bucket f).command ↔ p.Literal bucket f.S3FILE := by
  rw [words_CMD hend hb hk ht.clean, Puller.meant]
  refine (readCommand_eq_self_iff (fun v hv => readWord_plain ?_) fun v hv => ?_).trans
    (readWord_eq_self_iff (isWord_location hb hk.word).1)
  · simp only [mem_cons, not_mem_nil, or_false] at hv
    rcases hv with rfl | rfl | rfl
    · decide
    · decide
    · unfold Puller.verb
      split <;> decide
  · rcases mem_cons.1 hv with rfl | hv
    · exact readWord_plain ht.plain
    · exact (hend v hv).2

theorem copyOf_of_clean (hk : Clean f.S3FILE) (ht : Clean f.TARGET) :
    p.copyOf bucket f = some ⟨f, p.shell.readCommand (words (p.CMD bucket f).toList)⟩ := by
  rw [Puller.copyOf, if_neg hk.ne_empty, if_neg ht.ne_empty]

/-- The loop copies the files as they were meant exactly if they are clean, the shell has
nothing to find in their addresses, and the first argument is not taken for a question. -/
theorem copies_encode_iff (hend : p.KnownEndpoint) (hb : ∀ c ∈ bucket.toList, blank c = false) (hne : files ≠ [])
    (h : ∀ f ∈ files, f.KnownTarget) :
    p.copies bucket (encodeFiles files) = files.map (p.meant bucket) ↔
      ((∀ f ∈ files, Clean f.S3FILE ∧ Clean f.PERMS) ∧ ∀ f ∈ files, p.Literal bucket f.S3FILE) ∧ asksForHelp bucket = false := by
  unfold Puller.copies
  cases hh : asksForHelp bucket with
  | true =>
    refine ⟨fun heq => ?_, fun hc => nomatch hc.2⟩
    exact absurd (map_eq_nil_iff.1 heq.symm) hne
  | false =>
    rw [if_neg Bool.false_ne_true]
    constructor
    · intro heq
      have hall : ∀ f ∈ files, (Clean f.S3FILE ∧ Clean f.PERMS) ∧ p.Literal bucket f.S3FILE := by
        intro f hf
        have hmem : p.meant bucket f ∈ files.map (p.meant bucket) := mem_map_of_mem hf
        rw [← heq, mem_filterMap] at hmem
        obtain ⟨g, hg, hco⟩ := hmem
        obtain ⟨file, hfi, rfl⟩ := mem_map.1 hg
        unfold Puller.copyOf at hco
        split at hco
        · cases hco
        · obtain ⟨hfile, hcmd⟩ := Copy.mk.inj (Option.some.inj hco)
          split at hfile
          · -- no target is meant to be the one that the script falls back on
            exact absurd (congrArg (·.TARGET) hfile).symm ((h f hf).not_default _)
          · rename_i ht
            have hcl := clean_of_target (colon_not_mem_file hfi) ht
            rw [if_neg ht] at hcmd
            subst hfile
            exact ⟨hcl, (command_iff hend hb hcl.1 (h _ hf)).1 hcmd⟩
      exact ⟨⟨fun f hf => (hall f hf).1, fun f hf => (hall f hf).2⟩, rfl⟩
    · intro ⟨⟨hcl, hli⟩, _⟩
      rw [(pullerFiles_encode_iff h).2 hcl]
      have hco : ∀ f ∈ files, p.copyOf bucket f = some (p.meant bucket f) := by
        intro f hf
        rw [copyOf_of_clean (hcl f hf).1 (h f hf).clean, (command_iff hend hb (hcl f hf).1 (h f hf)).2 (hli f hf)]
        rfl
      rw [filterMap_congr hco, filterMap_eq_map']

end Copies

/-! ## Targets -/

theorem toList_toString (i : Nat) : (toString i).toList = Nat.toDigits 10 i := by
  simp [toString, Nat.repr]

/-- The characters that are no separators and mean nothing to the shell. -/
def harmless (c : Char) : Bool := !" \t\n:,'\"\\`$\x7b|&;()<>".toList.contains c

theorem harmless_iff {c} : harmless c = true ↔
    blank c = false ∧ c ≠ ':' ∧ c ≠ ',' ∧ special c = false ∧ operator c = false := by
  simp [harmless, blank, special, operator]
  tauto

theorem harmless_of_isDigit {c : Char} (h : c.isDigit = true) : harmless c = true := by
  by_contra hc
  simp only [harmless, String.reduceToList, Bool.not_eq_true', Bool.not_eq_false, contains_iff_mem, mem_cons, not_mem_nil, or_false] at hc
  rcases hc with rfl | rfl | rfl | rfl | rfl | rfl | rfl | rfl | rfl | rfl | rfl | rfl | rfl | rfl | rfl | rfl | rfl | rfl <;> cases h

theorem clean_of_harmless {s : String} (hne : s ≠ "") (h : ∀ c ∈ s.toList, harmless c = true) : Clean s ∧ Plain s.toList := by
  have hnil : s.toList ≠ [] := fun heq => hne (String.toList_inj.1 heq)
  have hs c hc := harmless_iff.1 (h c hc)
  exact ⟨⟨⟨hnil, fun c hc => (hs c hc).1⟩, fun hc => (hs _ hc).2.1 rfl, fun hc => (hs _ hc).2.2.1 rfl⟩,
    hnil, fun c hc => (hs c hc).2.2.2⟩

theorem clean_numbered {before : String} (hb : before.toList.all harmless = true) (i : Nat) :
    Clean (before ++ toString i) ∧ Plain (before ++ toString i).toList := by
  have hl : (before ++ toString i).toList = before.toList ++ Nat.toDigits 10 i := by
    rw [String.toList_append, toList_toString]
  refine clean_of_harmless (fun heq => ?_) fun c hc => ?_
  · rw [heq] at hl
    exact Nat.toDigits_ne_nil (append_eq_nil_iff.1 hl.symm).2
  · rw [hl, mem_append] at hc
    rcases hc with hc | hc
    · exact all_eq_true.1 hb c hc
    · exact harmless_of_isDigit (Nat.isDigit_of_mem_toDigits (by decide) (by decide) hc)

/-- The loop of `_get_data_mounts` gives each path a name of its list. -/
theorem lookup_dataMounts {kvs vols : List (String × String)} {k} (h : (vols.lookup k).isSome ∨ k ∈ kvs.map Prod.fst) :
    ∃ name, (kvs.foldl (fun vols kv => if (vols.lookup kv.1).isSome then vols else vols ++ [kv]) vols).lookup k = some name ∧
      (vols.lookup k = some name ∨ (k, name) ∈ kvs) := by
  induction kvs generalizing vols with
  | nil =>
    rcases h with h | h
    · obtain ⟨name, hn⟩ := Option.isSome_iff_exists.1 h
      exact ⟨name, hn, .inl hn⟩
    · cases h
  | cons kv kvs ih =>
    rw [foldl_cons]
    split
    · rename_i hkv
      have hk : (vols.lookup k).isSome ∨ k ∈ kvs.map Prod.fst := by
        rcases h with h | h
        · exact .inl h
        · rcases mem_cons.1 h with rfl | h
          · exact .inl hkv
          · exact .inr h
      obtain ⟨name, hn, hf⟩ := ih hk
      exact ⟨name, hn, hf.imp_right (mem_cons_of_mem _)⟩
    · have hk : ((vols ++ [kv]).lookup k).isSome ∨ k ∈ kvs.map Prod.fst := by
        rw [lookup_append, Option.isSome_or]
        rcases h with h | h
        · exact .inl (Bool.or_eq_true_iff.2 (.inl h))
        · rcases mem_cons.1 h with rfl | h
          · exact .inl (Bool.or_eq_true_iff.2 (.inr (by simp)))
          · exact .inr h
      obtain ⟨name, hn, hf | hf⟩ := ih hk
      · refine ⟨name, hn, ?_⟩
        rw [lookup_append, Option.or_eq_some_iff, lookup_cons_if] at hf
        refine hf.imp_right fun ⟨_, hnew⟩ => ?_
        split at hnew
        · rename_i heq
          cases hnew
          exact heq ▸ mem_cons_self
        · cases hnew
      · exact ⟨name, hn, .inr (mem_cons_of_mem _ hf)⟩

theorem getDataMounts_lookup {data_sources} {s : DownloadableContent} (hs : s ∈ data_sources) :
    ∃ i : Nat, (getDataMounts data_sources).lookup s.path = some ("p" ++ toString i) := by
  have hk : s.path ∈ (data_sources.mapIdx fun i s => (s.path, s!"p{i}")).map Prod.fst := by
    obtain ⟨i, hi, rfl⟩ := getElem_of_mem hs
    exact mem_map.2 ⟨_, mem_mapIdx.2 ⟨i, hi, rfl⟩, rfl⟩
  obtain ⟨name, hn, hf⟩ := @lookup_dataMounts _ [] _ (.inr hk)
  rcases hf with hf | hf
  · cases hf
  · obtain ⟨i, hi, heq⟩ := mem_mapIdx.1 hf
    refine ⟨i, ?_⟩
    rw [getDataMounts, hn, ← (Prod.mk.inj heq).2]
    rfl

/-! ## What the builders write -/

section Data
variable {o : Outside} {config : BaiConfig} {data_sources : List DownloadableContent} {objects : List String}
  {bucket : String}

theorem targets_dataFiles (hf : f ∈ dataFiles config data_sources objects) : f.KnownTarget := by
  obtain ⟨⟨s, object⟩, hmem, rfl⟩ := mem_map.1 hf
  obtain ⟨i, hi⟩ := getDataMounts_lookup (of_mem_zip hmem).1
  dsimp only
  rw [hi]
  have hn := @clean_numbered "p" (by decide) i
  refine ⟨hn.1, .inl rfl, hn.2, fun key heq => ?_⟩
  have hfi := congrArg (·.toList.head?) heq
  simp at hfi

theorem keys_dataFiles (hlen : objects.length ≤ data_sources.length) (P : String → Prop) :
    (∀ f ∈ dataFiles config data_sources objects, P f.S3FILE) ↔ ∀ object ∈ objects, P object := by
  have hkeys : (dataFiles config data_sources objects).map (·.S3FILE) = objects := by
    rw [dataFiles, map_map]
    exact map_snd_zip hlen
  conv_rhs => rw [← hkeys]
  exact forall_mem_map.symm

theorem clean_dataFiles_iff (hlen : objects.length ≤ data_sources.length) (hne : objects ≠ []) :
    (∀ f ∈ dataFiles config data_sources objects, Clean f.S3FILE ∧ Clean f.PERMS) ↔
      (∀ object ∈ objects, Clean object) ∧ Clean config.puller_mount_chmod := by
  have hperms : ∀ f ∈ dataFiles config data_sources objects, f.PERMS = config.puller_mount_chmod := by
    intro f hf
    obtain ⟨_, _, rfl⟩ := mem_map.1 hf
    rfl
  have hsome : ∃ f, f ∈ dataFiles config data_sources objects := by
    by_contra hno
    obtain ⟨object, ho⟩ := exists_mem_of_ne_nil _ hne
    exact (keys_dataFiles hlen fun _ => False).1 (fun f hf => hno ⟨f, hf⟩) object ho
  rw [← keys_dataFiles hlen, forall₂_and]
  refine and_congr_right fun _ => ⟨fun h => ?_, fun h f hf => hperms f hf ▸ h⟩
  obtain ⟨f, hf⟩ := hsome
  exact hperms f hf ▸ h f hf

theorem mapM_dataFiles (mounts : List (String × String))
    (h : Forall₂ (fun s object => s3Object o "data source" s.dst = .ok (bucket, object)) data_sources objects) :
    (data_sources.mapM fun s => do
      let (_, object) ← s3Object o "data source" s.dst
      return object ++ "," ++ config.puller_mount_chmod ++ "," ++ (mounts.lookup s.path).getD "") =
    .ok ((data_sources.zip objects).map fun (s, object) =>
      (PullerFile.mk object config.puller_mount_chmod ((mounts.lookup s.path).getD "") "").encode) := by
  induction h with
  | nil => rfl
  | cons hs _ ih =>
    rw [mapM_cons, hs, ih]
    rfl

theorem updateDataPuller_eq (hne : data_sources ≠ [])
    (h : Forall₂ (fun s object => s3Object o "data source" s.dst = .ok (bucket, object)) data_sources objects)
    (replica : Option String) (root : RootObjectHelper) :
    updateDataPuller o config (getDataMounts data_sources) data_sources replica root =
      editContainer dataPullerContainer replica
        (fun c => return c.put "args" (pullerArgs (bucket, encodeFiles (dataFiles config data_sources objects)))) root := by
  have ht := @mapM_dataFiles o config _ _ _ (getDataMounts data_sources) h
  cases h with
  | nil => exact absurd rfl hne
  | cons hf hr =>
    rw [updateDataPuller]
    congr 1
    funext c
    rw [hf, ht, encodeFiles, dataFiles, map_map]
    rfl

end Data

section Scripts
variable {objects : List String} {bucket : String}

theorem clean_unpack : Clean scriptUnpackModificator := by decide

theorem clean_chmod : Clean scriptPullerChmod := by decide

theorem targets_scriptFiles (hf : f ∈ scriptFiles objects) : f.KnownTarget := by
  obtain ⟨i, hi, rfl⟩ := mem_mapIdx.1 hf
  have ht : scriptsMountPath ++ s!"/s{i}" = scriptsMountPath ++ "/s" ++ toString i := String.append_assoc.symm
  have hn := @clean_numbered (scriptsMountPath ++ "/s") (by decide) i
  rw [← ht] at hn
  refine ⟨hn.1, .inr clean_unpack, hn.2, fun key heq => ?_⟩
  have hs := congrArg (·.toList[1]?) heq
  simp [scriptsMountPath] at hs

theorem keys_scriptFiles (P : String → Prop) : (∀ f ∈ scriptFiles objects, P f.S3FILE) ↔ ∀ object ∈ objects, P object := by
  have hkeys : (scriptFiles objects).map (·.S3FILE) = objects := by
    refine ext_getElem (by simp [scriptFiles]) fun i _ _ => ?_
    simp [scriptFiles]
  conv_rhs => rw [← hkeys]
  exact forall_mem_map.symm

theorem clean_scriptFiles_iff :
    (∀ f ∈ scriptFiles objects, Clean f.S3FILE ∧ Clean f.PERMS) ↔ ∀ object ∈ objects, Clean object := by
  rw [← keys_scriptFiles]
  refine ⟨fun h f hf => (h f hf).1, fun h f hf => ⟨h f hf, ?_⟩⟩
  obtain ⟨_, _, rfl⟩ := mem_mapIdx.1 hf
  exact clean_chmod

theorem map_encode_scriptFiles (scripts : List (String × String)) : (scriptFiles (scripts.map Prod.snd)).map (·.encode) =
    scripts.mapIdx fun i s =>
      s.2 ++ "," ++ scriptPullerChmod ++ "," ++ scriptsMountPath ++ s!"/s{i}" ++ "," ++ scriptUnpackModificator := by
  refine ext_getElem (by simp [scriptFiles]) fun i hi _ => ?_
  simp only [scriptFiles, getElem_map, getElem_mapIdx, PullerFile.encode]
  rw [if_neg (by decide), ← String.toList_inj]
  simp

/-- The arguments for the script puller. All scripts are taken from the bucket of the first one. -/
def scriptArgs : List (String × String) → Option (String × String)
  | [] => none
  | (bucket, object) :: scripts => some (bucket, encodeFiles (scriptFiles (object :: scripts.map Prod.snd)))

theorem scriptArgs_eq {objects : List String} (hne : objects ≠ []) (bucket : String) :
    scriptArgs (objects.map (Prod.mk bucket)) = some (bucket, encodeFiles (scriptFiles objects)) := by
  cases objects with
  | nil => exact absurd rfl hne
  | cons object objects => simp [scriptArgs, Function.comp_def]

theorem addScripts_args {scripts} (ha : scriptArgs scripts = some a) (replica : Option String) (b : BuilderState) :
    addScripts scripts replica b = (do
      let root ← editContainer scriptsPullerContainer replica (fun c => return c.put "args" (pullerArgs a)) b.root
      return { root, internal_env_vars := assign "BAI_SCRIPTS_PATH" (.str scriptsMountPath) b.internal_env_vars }) := by
  cases scripts with
  | nil => cases ha
  | cons script scripts =>
    cases ha
    rw [encodeFiles, ← map_cons (f := Prod.snd), map_encode_scriptFiles]
    rfl

theorem addScripts_eq (hne : objects ≠ []) (replica : Option String) (b : BuilderState) :
    addScripts (objects.map (Prod.mk bucket)) replica b = (do
      let root ← editContainer scriptsPullerContainer replica
        (fun c => return c.put "args" (pullerArgs (bucket, encodeFiles (scriptFiles objects)))) b.root
      return { root, internal_env_vars := assign "BAI_SCRIPTS_PATH" (.str scriptsMountPath) b.internal_env_vars }) :=
  addScripts_args (scriptArgs_eq hne bucket) replica b

end Scripts

/-! ## The round trip -/

/-- The argument of a puller is read back as it was meant exactly when the parts that come
from outside are clean; then every file is copied from the bucket of its own address, unless
the shell finds something to expand in that address, or the bucket is taken for a question for
help. -/
theorem puller_round_trip (o : Outside) (config : BaiConfig) (p : Puller) (hend : p.KnownEndpoint) (bucket : String)
    (hb : ∀ c ∈ bucket.toList, blank c = false) :
    (∀ (data_sources : List DownloadableContent) (objects : List String), data_sources ≠ [] →
      Forall₂ (fun s object => s3Object o "data source" s.dst = .ok (bucket, object)) data_sources objects →
      ∃ text, (∀ replica root, updateDataPuller o config (getDataMounts data_sources) data_sources replica root =
          editContainer dataPullerContainer replica (fun c => return c.put "args" (pullerArgs (bucket, text))) root) ∧
        (pullerFiles text = dataFiles config data_sources objects ↔
          (∀ object ∈ objects, Clean object) ∧ Clean config.puller_mount_chmod) ∧
        (p.copies bucket text = (dataFiles config data_sources objects).map (p.meant bucket) ↔
          (((∀ object ∈ objects, Clean object) ∧ Clean config.puller_mount_chmod) ∧
            ∀ object ∈ objects, p.Literal bucket object) ∧ asksForHelp bucket = false)) ∧
    (∀ dsts objects : List String, dsts ≠ [] →
      Forall₂ (fun dst object => s3Object o "script" (some dst) = .ok (bucket, object)) dsts objects →
      ∃ scripts text, dsts.mapM (fun dst => s3Object o "script" (some dst)) = .ok scripts ∧
        (∀ replica b, addScripts scripts replica b = (do
          let root ← editContainer scriptsPullerContainer replica
            (fun c => return c.put "args" (pullerArgs (bucket, text))) b.root
          return { root, internal_env_vars := assign "BAI_SCRIPTS_PATH" (.str scriptsMountPath) b.internal_env_vars })) ∧
        (pullerFiles text = scriptFiles objects ↔ ∀ object ∈ objects, Clean object) ∧
        (p.copies bucket text = (scriptFiles objects).map (p.meant bucket) ↔
          ((∀ object ∈ objects, Clean object) ∧ ∀ object ∈ objects, p.Literal bucket object) ∧
            asksForHelp bucket = false)) := by
  constructor
  · intro data_sources objects hne h
    have hlen := h.length_eq
    have ho := ne_nil_of_forall₂ h hne
    have hc := @clean_dataFiles_iff config _ _ (Nat.le_of_eq hlen.symm) ho
    refine ⟨_, updateDataPuller_eq hne h, ?_, ?_⟩
    · rw [pullerFiles_encode_iff fun f hf => targets_dataFiles hf, hc]
    · have hfi : dataFiles config data_sources objects ≠ [] := by
        intro hnil
        have hz := congrArg length hnil
        rw [dataFiles, length_map, length_zip, hlen, Nat.min_self] at hz
        exact ho (eq_nil_of_length_eq_zero hz)
      rw [copies_encode_iff hend hb hfi fun f hf => targets_dataFiles hf, hc,
        keys_dataFiles (Nat.le_of_eq hlen.symm) (p.Literal bucket)]
  · intro dsts objects hne h
    have ho := ne_nil_of_forall₂ h hne
    refine ⟨_, _, mapM_of_forall₂ (forall₂_map_right_iff.2 h), addScripts_eq ho, ?_, ?_⟩
    · rw [pullerFiles_encode_iff fun f hf => targets_scriptFiles hf, clean_scriptFiles_iff]
    · have hfi : scriptFiles objects ≠ [] := fun hnil => ho (mapIdx_eq_nil_iff.1 hnil)
      rw [copies_encode_iff hend hb hfi fun f hf => targets_scriptFiles hf, clean_scriptFiles_iff,
        keys_scriptFiles (p.Literal bucket)]

def s3Parse (address : String) : Py Url :=
  let rest := address.toList.drop "s3://".length
  return ⟨"s3", String.ofList (rest.takeWhile (· ≠ '/')), String.ofList (rest.dropWhile (· ≠ '/'))⟩

def s3Outside : Outside := { exampleOutside with urlparse := s3Parse }

def exampleConfig : BaiConfig := (exampleRequest trainingLabels).config.bai_config

def fetcherOf (path : String) : Gate.Handler where
  producer_topic := "BAI_APP_FETCHER"
  s3_download_bucket := "bucket"
  md5sum _ := "3a7c"
  urlPath _ := path

def fetchedSource (path : String) : DownloadableContent :=
  let source : DownloadableContent := { src := "http://host" ++ path, path := "/data" }
  { source with dst := some (Gate.getContentDst (fetcherOf path) source) }

def examplePuller : Puller where
  shell := { value := fun _ => [], value_lt := fun _ => Nat.zero_le _, braces := fun w => [w], braces_lt := fun _ => .inl rfl }
  S3_ENDPOINT := ""
  isPre _ _ := false

theorem puller_round_trip_zip : ∃ text,
    (∀ replica root, updateDataPuller s3Outside exampleConfig (getDataMounts [fetchedSource "/data.zip"])
      [fetchedSource "/data.zip"] replica root = editContainer dataPullerContainer replica
        (fun c => return c.put "args" (pullerArgs ("bucket", text))) root) ∧
    pullerFiles text = [⟨"data_sets/3a7c/data.zip", "700", "p0", ""⟩] ∧
    examplePuller.copies "bucket" text = [⟨⟨"data_sets/3a7c/data.zip", "700", "p0", ""⟩,
      some (["aws", "s3", "cp", "s3://bucket/data_sets/3a7c/data.zip", "p0"].map (·.toList))⟩] := by
  have ho : s3Object s3Outside "data source" (fetchedSource "/data.zip").dst =
      .ok ("bucket", "data_sets/3a7c/data.zip") := by
    rfl
  have hb : IsWord "bucket".toList := by decide
  obtain ⟨text, ht, hf, hc⟩ := (puller_round_trip s3Outside exampleConfig examplePuller (fun w hw => nomatch hw) "bucket"
    hb.2).1 [fetchedSource "/data.zip"] _ (cons_ne_nil _ _) (.cons ho .nil)
  have hcl : ∀ object ∈ ["data_sets/3a7c/data.zip"], Clean object := by decide
  have hli : ∀ object ∈ ["data_sets/3a7c/data.zip"], examplePuller.Literal "bucket" object := by
    simpa using ⟨by decide +kernel, rfl⟩
  exact ⟨text, ht, hf.2 ⟨hcl, by decide⟩, (hc.2 ⟨⟨⟨hcl, by decide⟩, hli⟩, by decide⟩).trans (by decide +kernel)⟩

/-- A comma is allowed in the path of an address. Here the puller looks for another file,
takes the rest of its name for the mode, and the mode for the target. -/
theorem comma_in_path_is_split : ∃ text,
    (∀ replica root, updateDataPuller s3Outside exampleConfig (getDataMounts [fetchedSource "/data,v2.zip"])
      [fetchedSource "/data,v2.zip"] replica root = editContainer dataPullerContainer replica
        (fun c => return c.put "args" (pullerArgs ("bucket", text))) root) ∧
    dataFiles exampleConfig [fetchedSource "/data,v2.zip"] ["data_sets/3a7c/data,v2.zip"] =
      [⟨"data_sets/3a7c/data,v2.zip", "700", "p0", ""⟩] ∧
    pullerFiles text = [⟨"data_sets/3a7c/data", "v2.zip", "700", "p0"⟩] := by
  have ho : s3Object s3Outside "data source" (fetchedSource "/data,v2.zip").dst =
      .ok ("bucket", "data_sets/3a7c/data,v2.zip") := by
    rfl
  exact ⟨_, updateDataPuller_eq (cons_ne_nil _ _) (.cons ho .nil), by decide, by decide +kernel⟩

end BenchmarkAi.Transpiler
