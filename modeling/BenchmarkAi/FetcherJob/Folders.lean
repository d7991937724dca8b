import BenchmarkAi.FetcherJob.Reports
import Mathlib.Data.Char
import Mathlib.Data.Finite.Defs
import Mathlib.Data.Fintype.Order
import Mathlib.Data.List.Lex
/-!
# Copies of folders

`s3_to_s3_deep` makes the keys of the destination with `str.replace`, which replaces every occurrence
of the key of the folder and not only the one at the beginning. The copy keeps the paths below the
folder exactly if there is nothing else to replace.
-/

open List

namespace BenchmarkAi.FetcherJob

/-! ## Replacing a text -/

section Replace
variable {old new : List Char}

theorem replaceFrom_skip (cs rest : List Char) :
    replaceFrom old new cs.length (cs ++ rest) = replaceFrom old new 0 rest := by
  induction cs with
  | nil => rfl
  | cons c cs ih => exact ih

theorem replaceFrom_front (h : old ≠ []) (rest : List Char) :
    replaceFrom old new 0 (old ++ rest) = new ++ replaceFrom old new 0 rest := by
  obtain ⟨c, cs, rfl⟩ := exists_cons_of_ne_nil h
  have hf : (c :: cs).isPrefixOf (c :: (cs ++ rest)) = true :=
    isPrefixOf_iff_prefix.2 (prefix_append (c :: cs) rest)
  rw [cons_append, replaceFrom, if_pos hf, length_cons, Nat.add_sub_cancel, replaceFrom_skip]

theorem replaceFrom_cons {c cs} (h : ¬ old <+: c :: cs) :
    replaceFrom old new 0 (c :: cs) = c :: replaceFrom old new 0 cs := by
  rw [replaceFrom, if_neg (mt isPrefixOf_iff_prefix.1 h)]

/-- Relations between a text and what it becomes. -/
theorem replaceFrom_rel {R : List Char → List Char → Prop} (hne : old ≠ []) (hnil : R [] [])
    (hc : ∀ c a b, ¬ old <+: c :: a → R a b → R (c :: a) (c :: b)) (hf : ∀ a b, R a b → R (old ++ a) (new ++ b))
    (cs : List Char) : R cs (replaceFrom old new 0 cs) := by
  -- the text behind an occurrence is shorter
  induction hn : cs.length using Nat.strong_induction_on generalizing cs with
  | h n ih =>
    by_cases hpre : old <+: cs
    · obtain ⟨rest, rfl⟩ := hpre
      rw [replaceFrom_front hne]
      refine hf rest _ (ih rest.length ?_ rest rfl)
      have hpos := length_pos_iff.2 hne
      rw [← hn, length_append]
      omega
    · cases cs with
      | nil => exact hnil
      | cons c cs =>
        rw [replaceFrom_cons hpre]
        refine hc c cs _ hpre (ih cs.length ?_ cs rfl)
        rw [← hn, length_cons]
        omega

theorem replaceFrom_self (hne : old ≠ []) (cs : List Char) : replaceFrom old old 0 cs = cs := by
  refine @replaceFrom_rel old old (fun a b => b = a) hne rfl ?_ ?_ cs
  · rintro c a _ - rfl
    rfl
  · rintro a _ rfl
    rfl

/-- An order in which a text becomes greater when `old` is replaced by `new`. -/
structure Grows (lt : List Char → List Char → Prop) (old new : List Char) : Prop where
  irrefl : ∀ a, ¬ lt a a
  trans : ∀ a b c, lt a b → lt b c → lt a c
  cons : ∀ c a b, lt a b → lt (c :: a) (c :: b)
  front : ∀ a b, b = a ∨ lt a b → lt (old ++ a) (new ++ b)

theorem Grows.replaceFrom {lt : List Char → List Char → Prop} (h : Grows lt old new) (hne : old ≠ []) (cs : List Char) :
    (¬ old <:+: cs ∧ replaceFrom old new 0 cs = cs) ∨ (old <:+: cs ∧ lt cs (replaceFrom old new 0 cs)) := by
  refine @replaceFrom_rel old new (fun a b => (¬ old <:+: a ∧ b = a) ∨ (old <:+: a ∧ lt a b)) hne ?_ ?_ ?_ cs
  · exact .inl ⟨mt infix_nil.1 hne, rfl⟩
  · rintro c a b hpre (⟨hno, rfl⟩ | ⟨hocc, hlt⟩)
    · exact .inl ⟨fun hc => (infix_cons_iff.1 hc).elim hpre hno, rfl⟩
    · exact .inr ⟨infix_cons_iff.2 (.inr hocc), h.cons c a b hlt⟩
  · intro a b hab
    exact .inr ⟨(prefix_append old a).isInfix, h.front a b (hab.imp And.right And.right)⟩

theorem append_lt_append {a b : List Char} (hlen : a.length = b.length) (hlt : a < b) (x y : List Char) : a ++ x < b ++ y := by
  induction a generalizing b with
  | nil =>
    rw [length_nil, eq_comm, length_eq_zero_iff] at hlen
    subst hlen
    exact absurd hlt (lt_irrefl _)
  | cons c a ih =>
    cases b with
    | nil => cases hlen
    | cons d b =>
      rw [cons_append, cons_append, cons_lt_cons_iff]
      rw [cons_lt_cons_iff] at hlt
      exact hlt.imp_right fun ⟨heq, hlt⟩ => ⟨heq, ih (Nat.succ.inj hlen) hlt⟩

/-- By the lengths if they differ, otherwise as in a dictionary. -/
theorem exists_grows (hne : old ≠ new) : ∃ lt, Grows lt old new := by
  rcases Nat.lt_trichotomy old.length new.length with hlt | heq | hlt
  · refine ⟨fun a b => a.length < b.length, fun _ => Nat.lt_irrefl _, fun _ _ _ => Nat.lt_trans, fun c a b h => ?_,
      fun a b h => ?_⟩
    · exact Nat.succ_lt_succ h
    · rw [length_append, length_append]
      rcases h with rfl | h <;> omega
  · rcases lt_trichotomy old new with hlt | rfl | hlt
    · refine ⟨(· < ·), lt_irrefl, fun _ _ _ => lt_trans, fun c a b h => ?_, fun a b _ => append_lt_append heq hlt a b⟩
      exact cons_lt_cons_iff.2 (.inr ⟨rfl, h⟩)
    · exact absurd rfl hne
    · refine ⟨(· > ·), lt_irrefl, fun _ _ _ h h' => lt_trans h' h, fun c a b h => ?_,
        fun a b _ => append_lt_append heq.symm hlt b a⟩
      exact cons_lt_cons_iff.2 (.inr ⟨rfl, h⟩)
  · refine ⟨fun a b => b.length < a.length, fun _ => Nat.lt_irrefl _, fun _ _ _ h h' => Nat.lt_trans h' h, fun c a b h => ?_,
      fun a b h => ?_⟩
    · exact Nat.succ_lt_succ h
    · rw [length_append, length_append]
      rcases h with rfl | h <;> omega

end Replace

/-- A map that makes no item smaller and reaches all items of a list changes none of them. -/
theorem fixed_of_onto {α : Type} {lt : α → α → Prop} (hi : ∀ a, ¬ lt a a) (ht : ∀ a b c, lt a b → lt b c → lt a c)
    {l : List α} {f : α → α} (hg : ∀ a ∈ l, f a = a ∨ lt a (f a)) (ho : ∀ a ∈ l, ∃ b ∈ l, f b = a) :
    ∀ a ∈ l, f a = a := by
  have hwf : WellFounded fun a b : { a // a ∈ l } => lt a.1 b.1 := by
    have : IsTrans { a // a ∈ l } fun a b => lt a.1 b.1 := ⟨fun a b c => ht a.1 b.1 c.1⟩
    have : Std.Irrefl fun a b : { a // a ∈ l } => lt a.1 b.1 := ⟨fun a => hi a.1⟩
    have : Finite { a // a ∈ l } := finite_toSet l
    exact Finite.wellFounded_of_trans_of_irrefl _
  intro a ha
  have hall : ∀ x : { a // a ∈ l }, f x.1 = x.1 := by
    intro x
    induction x using hwf.induction with
    | h x ih =>
      obtain ⟨b, hb, hbx⟩ := ho x.1 x.2
      rcases hg b hb with hfix | hlt
      · rw [← hbx, hfix, hfix]
      · have hfix := ih ⟨b, hb⟩ (hbx ▸ hlt)
        rw [← hbx, hfix, hfix]
  exact hall ⟨a, ha⟩

/-! ## Keys below a folder -/

def below (src : S3Object) (key : String) : List Char := key.toList.drop src.key.toList.length

def pathAfter (src dst : S3Object) (path : List Char) : List Char :=
  if src.key = "" then path.flatMap (· :: dst.key.toList) else replaceFrom src.key.toList dst.key.toList 0 path

/-- Nothing but the beginning of the key is replaced, or it is replaced by itself. -/
def OnlyFront (src dst : S3Object) (path : List Char) : Prop :=
  if src.key = "" then dst.key = "" ∨ path = [] else src.key = dst.key ∨ ¬ src.key.toList <:+: path

instance (src dst : S3Object) (path : List Char) : Decidable (OnlyFront src dst path) :=
  inferInstanceAs (Decidable
    (if src.key = "" then dst.key = "" ∨ path = [] else src.key = dst.key ∨ ¬ src.key.toList <:+: path))

/-- Nothing is wrapped around the listing of the source, its ETag and the copy. -/
structure CopyCalls.Answered (calls : CopyCalls) : Prop where
  next : calls.next = .ok
  dstEtag : calls.dstEtag.answered = true
  srcEtag : calls.srcEtag = .ok
  copy : calls.copy = .ok

/-- Every object of the folder is at the same path below the destination, and nothing else has changed. -/
structure KeepsPaths (w : World) (a : Attempt) (src dst : S3Object) (bucket : Bucket) : Prop where
  returns : (s3ToS3Deep w a src dst bucket).2 = .ok ()
  content : ∀ kv ∈ listed w src, ContentThere kv.2.content ((s3ToS3Deep w a src dst bucket).1 (moved src dst kv.1))
  distinct : ((listed w src).map fun kv => replace kv.1 src.key dst.key).Nodup
  only : ∀ key, key ∉ (listed w src).map (fun kv => moved src dst kv.1) → (s3ToS3Deep w a src dst bucket).1 key = bucket key

section Folders
variable {w : World} {a : Attempt} {src dst : S3Object} {path : List Char}

theorem moved_eq (src dst : S3Object) (key : String) : moved src dst key = String.ofList (dst.key.toList ++ below src key) := rfl

theorem replace_eq {key : String} (h : ∃ rest, key.toList = src.key.toList ++ rest) :
    replace key src.key dst.key = String.ofList (dst.key.toList ++ pathAfter src dst (below src key)) := by
  obtain ⟨rest, hr⟩ := h
  have hb : below src key = rest := by rw [below, hr, drop_left]
  rw [replace, hb, pathAfter, hr]
  split
  · rename_i hnil
    have hf (cs : List Char) : cs.flatMap (fun c => dst.key.toList ++ [c]) ++ dst.key.toList =
        dst.key.toList ++ cs.flatMap (· :: dst.key.toList) := by
      induction cs with
      | nil => simp
      | cons c cs ih => simp [ih]
    rw [hnil, String.toList_empty, nil_append, hf]
  · rename_i hne
    rw [replaceFrom_front fun hnil => hne (String.toList_inj.1 hnil)]

/-- In some order, no path becomes smaller. -/
theorem exists_pathAfter_grows (src dst : S3Object) : ∃ lt : List Char → List Char → Prop, (∀ a, ¬ lt a a) ∧
    (∀ a b c, lt a b → lt b c → lt a c) ∧
    ∀ path, (OnlyFront src dst path ∧ pathAfter src dst path = path) ∨
      (¬ OnlyFront src dst path ∧ lt path (pathAfter src dst path)) := by
  by_cases hnil : src.key = ""
  · refine ⟨fun a b => a.length < b.length, fun _ => Nat.lt_irrefl _, fun _ _ _ => Nat.lt_trans, fun path => ?_⟩
    rw [OnlyFront, if_pos hnil, pathAfter, if_pos hnil]
    by_cases hp : path = []
    · exact .inl ⟨.inr hp, by rw [hp]; rfl⟩
    · by_cases hdst : dst.key = ""
      · refine .inl ⟨.inl hdst, ?_⟩
        rw [hdst]
        exact flatMap_singleton' path
      · refine .inr ⟨fun h => h.elim hdst hp, ?_⟩
        have hpos : 0 < dst.key.toList.length :=
          length_pos_iff.2 fun h => hdst (String.toList_inj.1 h)
        have hlen : (path.flatMap (· :: dst.key.toList)).length = path.length * (dst.key.toList.length + 1) := by
          simp [length_flatMap]
        have hp := length_pos_iff.2 hp
        show path.length < _
        rw [hlen]
        exact (Nat.lt_mul_iff_one_lt_right hp).2 (Nat.succ_lt_succ hpos)
  · have hne : src.key.toList ≠ [] := fun h => hnil (String.toList_inj.1 h)
    by_cases heq : src.key = dst.key
    · refine ⟨fun _ _ => False, fun _ => id, fun _ _ _ => nofun, fun path => .inl ⟨?_, ?_⟩⟩
      · rw [OnlyFront, if_neg hnil]
        exact .inl heq
      · rw [pathAfter, if_neg hnil, ← heq, replaceFrom_self hne]
    · obtain ⟨lt, hg⟩ := exists_grows (mt String.toList_inj.1 heq)
      refine ⟨lt, hg.irrefl, hg.trans, fun path => ?_⟩
      rw [OnlyFront, if_neg hnil, pathAfter, if_neg hnil]
      rcases hg.replaceFrom hne path with ⟨hno, hs⟩ | ⟨hocc, hlt⟩
      · exact .inl ⟨.inr hno, hs⟩
      · exact .inr ⟨fun h => h.elim heq (not_not.2 hocc), hlt⟩

theorem pathAfter_of_onlyFront (h : OnlyFront src dst path) : pathAfter src dst path = path := by
  obtain ⟨_, -, -, hc⟩ := exists_pathAfter_grows src dst
  exact ((hc path).resolve_right fun hno => hno.1 h).2

theorem replace_listed (h : ∀ kv ∈ listed w src, OnlyFront src dst (below src kv.1)) {kv : String × Stored}
    (hkv : kv ∈ listed w src) : replace kv.1 src.key dst.key = moved src dst kv.1 := by
  rw [replace_eq (listed_key hkv), pathAfter_of_onlyFront (h kv hkv), moved_eq]

theorem allCopied_of_answered (ha : ∀ i, (a.objects i).Answered) (l : List (String × Stored)) (i : Nat) (bucket : Bucket) :
    AllCopied w a src dst i l bucket := by
  induction l generalizing i bucket with
  | nil => trivial
  | cons kv l ih => exact ⟨(ha i).next, ⟨(ha i).dstEtag, .inr (ha i).copy⟩, ih (i + 1) _⟩

theorem deep_answered (ha : ∀ i, (a.objects i).Answered) (bucket : Bucket) : (s3ToS3Deep w a src dst bucket).2 = .ok () ∧
    LastThere src dst (listed w src) bucket (s3ToS3Deep w a src dst bucket).1 := by
  obtain ⟨hok, -, hk⟩ | ⟨-, -, -, hn⟩ := copyListed_spec (listed w src) 0 bucket
  · exact ⟨hok, hk⟩
  · exact absurd (allCopied_of_answered ha _ 0 bucket) hn

theorem lastTo_mem {l : List (String × Stored)} {key} {kv : String × Stored} (h : lastTo src dst key l = some kv) :
    kv ∈ l ∧ replace kv.1 src.key dst.key = key := by
  obtain ⟨hkv, hkey⟩ := mem_filter.1 (mem_of_getLast? h)
  exact ⟨hkv, of_decide_eq_true hkey⟩

theorem lastTo_none {l : List (String × Stored)} {key} (h : lastTo src dst key l = none) :
    ∀ kv ∈ l, replace kv.1 src.key dst.key ≠ key :=
  fun kv hkv heq => absurd (decide_eq_true heq) (filter_eq_nil_iff.1 (getLast?_eq_none_iff.1 h) kv hkv)

/-- Folders are copied to the same paths exactly if their key is replaced nowhere else. -/
theorem keeps_paths_iff (ha : ∀ i, (a.objects i).Answered) :
    (∀ bucket, KeepsPaths w a src dst bucket) ↔ ∀ kv ∈ listed w src, OnlyFront src dst (below src kv.1) := by
  constructor
  · intro h
    obtain ⟨lt, hi, ht, hc⟩ := exists_pathAfter_grows src dst
    have hf := @fixed_of_onto _ lt hi ht ((listed w src).map fun kv => below src kv.1) (pathAfter src dst)
      (fun path _ => (hc path).imp And.right And.right) ?_
    · intro kv hkv
      have hp := hf _ (mem_map.2 ⟨kv, hkv, rfl⟩)
      refine ((hc _).resolve_right fun hno => ?_).1
      rw [hp] at hno
      exact hi _ hno.2
    · -- the keys that are there afterwards were written
      intro path hp
      obtain ⟨kv, hkv, rfl⟩ := mem_map.1 hp
      obtain ⟨found, hfo, -⟩ := (h fun _ => none).content kv hkv
      obtain ⟨hb, -⟩ | ⟨kv', hlast, -⟩ := (deep_answered ha _).2 (moved src dst kv.1)
      · rw [hb] at hfo
        cases hfo
      · obtain ⟨hkv', heq⟩ := lastTo_mem hlast
        rw [replace_eq (listed_key hkv')] at heq
        exact ⟨_, mem_map.2 ⟨kv', hkv', rfl⟩, append_cancel_left (String.ofList_injective heq)⟩
  · intro h bucket
    have hk : (listed w src).map (fun kv => replace kv.1 src.key dst.key) = (listed w src).map fun kv => moved src dst kv.1 :=
      map_congr_left fun kv hkv => replace_listed h hkv
    have hn := nodup_moved (w := w) src dst
    rw [← hk] at hn
    obtain ⟨hr, hat⟩ := deep_answered ha bucket
    refine ⟨hr, fun kv hkv => ?_, hn, fun key hkey => ?_⟩
    · obtain ⟨-, hnone⟩ | ⟨kv', hlast, hth⟩ := hat (moved src dst kv.1)
      · exact absurd (replace_listed h hkv) (lastTo_none hnone kv hkv)
      · obtain ⟨hkv', heq⟩ := lastTo_mem hlast
        rw [← replace_listed h hkv] at heq
        obtain rfl := inj_on_of_nodup_map hn hkv' hkv heq
        exact hth
    · obtain ⟨hsame, -⟩ | ⟨kv', hlast, -⟩ := hat key
      · exact hsame
      · obtain ⟨hkv', rfl⟩ := lastTo_mem hlast
        exact absurd (hk ▸ mem_map.2 ⟨kv', hkv', rfl⟩) hkey

end Folders

def folderWorld (objects : List (String × Stored)) (nodup : (objects.map Prod.fst).Nodup) : World :=
  { plainWorld with objects := fun _ => objects, nodup := fun _ => nodup }

def smooth : Attempt := { http := .curlError }

theorem answered_smooth (i : Nat) : (smooth.objects i).Answered := ⟨rfl, rfl, rfl, rfl⟩

def dataFolder : S3Object := ⟨"sources", "data/"⟩

def cacheFolder : S3Object := ⟨"bucket", "cache/"⟩

def nestedWorld : World := folderWorld [("data/a", ⟨[1], 0, []⟩), ("data/b/c", ⟨[2], 0, []⟩)] (by decide)

theorem keeps_paths_nested : KeepsPaths nestedWorld smooth dataFolder cacheFolder fun _ => none :=
  (keeps_paths_iff answered_smooth).2 (by decide) _

def repeatedWorld : World := folderWorld [("data/cache/x", ⟨[1], 0, []⟩), ("data/data/x", ⟨[2], 0, []⟩)] (by decide)

/-- Two objects are copied to one key, and there is nothing where one of them should be. -/
theorem repeated_folder_lost :
    (listed repeatedWorld dataFolder).map (fun kv => replace kv.1 dataFolder.key cacheFolder.key) =
        ["cache/cache/x", "cache/cache/x"] ∧
      (listed repeatedWorld dataFolder).map (fun kv => moved dataFolder cacheFolder kv.1) =
        ["cache/cache/x", "cache/data/x"] ∧
      (s3ToS3Deep repeatedWorld smooth dataFolder cacheFolder fun _ => none).1 "cache/data/x" = none := by
  refine ⟨by decide +kernel, by decide +kernel, ?_⟩
  obtain ⟨hsame, -⟩ | ⟨kv, hlast, -⟩ := (@deep_answered repeatedWorld smooth dataFolder cacheFolder answered_smooth
    fun _ => none).2 "cache/data/x"
  · exact hsame
  · have hnone : lastTo dataFolder cacheFolder "cache/data/x" (listed repeatedWorld dataFolder) = none := by decide +kernel
    cases hnone.symm.trans hlast

end BenchmarkAi.FetcherJob
