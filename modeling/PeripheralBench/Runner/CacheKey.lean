import PeripheralBench.Codec.Json
import PeripheralBench.Runner.BenchLine

/-!
# The key of the firmware cache

A firmware image is built again unless there is one with the same key.  The key is the hash of the
options, the firmware sources and the header with the credentials, which are fed to the hash one
after another.

The options are self-delimiting, but between a path, the contents of its file, the next path and the
header nothing is fed.  So the bytes say which inputs they are made from only if there are no
sources and the header does not begin like one (`unambiguous_iff`).  They do for sources of which
the paths and the sizes are known (`eq_of_feed_eq`).
-/

open PeripheralBench.Codec

namespace PeripheralBench.Runner

namespace CacheKey

/-! ## The inputs -/

/-- The contents of a file. -/
abbrev Contents : Type := List UInt8

/-- `str.encode()`. -/
def encode (s : Str) : List UInt8 := s.flatMap String.utf8EncodeChar

/-- `build_options`, a dictionary: its entries, in the order of their keys. -/
structure BuildOptions where
  entries : List (Str × Json.Value)
  sorted : entries.Pairwise fun a b ↦ a.1 < b.1

/-- The name of a file or of a directory.  What is in a directory `__pycache__` is not hashed. -/
def IsName (name : Str) : Prop :=
  name ≠ [] ∧ '/' ∉ name ∧ Char.ofNat 0 ∉ name ∧ name ≠ ".".toList ∧ name ≠ "..".toList ∧
    name ≠ "__pycache__".toList

instance (name : Str) : Decidable (IsName name) := inferInstanceAs (Decidable (_ ∧ _))

/-- `path.relative_to(firmware_dir)`. -/
structure SourcePath where
  parts : List Str
  ne_nil : parts ≠ []
  isName : ∀ part ∈ parts, IsName part

/-- `as_posix()`. -/
def SourcePath.asPosix (path : SourcePath) : Str := join ['/'] path.parts

/-- The files of the firmware directory, in the order of their paths.  No file is a directory. -/
structure SourceTree where
  files : List (SourcePath × Contents)
  sorted : files.Pairwise fun a b ↦ a.1.parts < b.1.parts
  separate : files.Pairwise fun a b ↦ ¬ a.1.parts <+: b.1.parts

/-- What an image is built from. -/
structure BuildInputs where
  options : BuildOptions
  tree : SourceTree
  /-- The generated header. -/
  header : Contents

/-- What is fed for a file. -/
def feedFile (file : SourcePath × Contents) : List UInt8 := encode file.1.asPosix ++ file.2

/-- The bytes that `firmware_cache_key` feeds to the hash. -/
def feed (x : BuildInputs) : List UInt8 :=
  encode (Json.dumpsObject x.options.entries) ++ (x.tree.files.flatMap feedFile ++ x.header)

/-- No other inputs have the same key. -/
def Unambiguous (x : BuildInputs) : Prop := ∀ y, feed y = feed x → y = x

/-! ## Equal feeds -/

theorem delimited_utf8EncodeChar : Delimited String.utf8EncodeChar :=
  .of_decode (fun bytes ↦ bytes.toByteArray.utf8DecodeChar? 0) fun c rest ↦ by
    rw [List.toByteArray_append, ByteArray.utf8DecodeChar?_utf8EncodeChar_append]

/-- The options are read back. -/
theorem delimited_options :
    Delimited fun entries ↦ encode (Json.dumpsObject entries) :=
  Json.delimited_dumpsObject.flatMap delimited_utf8EncodeChar

theorem BuildInputs.ext {x y : BuildInputs} (hoptions : x.options.entries = y.options.entries)
    (hfiles : x.tree.files = y.tree.files) (hheader : x.header = y.header) : x = y := by
  obtain ⟨⟨_, _⟩, ⟨_, _, _⟩, _⟩ := x
  obtain ⟨⟨_, _⟩, ⟨_, _, _⟩, _⟩ := y
  cases hoptions
  cases hfiles
  cases hheader
  rfl

/-- Equal feeds are of the same options. -/
theorem rest_eq_of_feed_eq {x y : BuildInputs} (h : feed x = feed y) :
    x.options.entries = y.options.entries ∧
      x.tree.files.flatMap feedFile ++ x.header = y.tree.files.flatMap feedFile ++ y.header :=
  delimited_options h

/-! ## Where one input ends -/

/-- Files with the same paths and sizes, and what follows them. -/
theorem files_eq_of_append_eq {files files' : List (SourcePath × Contents)}
    {rest rest' : List UInt8}
    (hlayout : files.map (fun file ↦ (file.1, file.2.length)) =
      files'.map fun file ↦ (file.1, file.2.length))
    (h : files.flatMap feedFile ++ rest = files'.flatMap feedFile ++ rest') :
    files = files' ∧ rest = rest' := by
  induction files generalizing files' with
  | nil =>
      obtain rfl := List.map_eq_nil_iff.mp hlayout.symm
      exact ⟨rfl, h⟩
  | cons file files ih =>
      obtain ⟨file', files', rfl, hfile, hfiles⟩ := List.map_eq_cons_iff.mp hlayout.symm
      obtain ⟨path, contents⟩ := file
      obtain ⟨path', contents'⟩ := file'
      obtain ⟨rfl, hlength⟩ := Prod.mk.inj hfile
      simp only [List.flatMap_cons, feedFile, List.append_assoc] at h
      obtain ⟨rfl, hrest⟩ := List.append_inj (List.append_cancel_left h) hlength.symm
      obtain ⟨rfl, rfl⟩ := ih hfiles.symm hrest
      exact ⟨rfl, rfl⟩

/-- Inputs whose sources have the same paths and sizes are told apart. -/
theorem eq_of_feed_eq {x y : BuildInputs}
    (hlayout : x.tree.files.map (fun file ↦ (file.1, file.2.length)) =
      y.tree.files.map fun file ↦ (file.1, file.2.length))
    (h : feed x = feed y) : x = y := by
  obtain ⟨hoptions, hrest⟩ := rest_eq_of_feed_eq h
  obtain ⟨hfiles, hheader⟩ := files_eq_of_append_eq hlayout hrest
  exact BuildInputs.ext hoptions hfiles hheader

namespace SourceTree

/-- No sources. -/
def empty : SourceTree where
  files := []
  sorted := .nil
  separate := .nil

/-- One source. -/
def single (path : SourcePath) (contents : Contents) : SourceTree where
  files := [(path, contents)]
  sorted := List.pairwise_singleton _ _
  separate := List.pairwise_singleton _ _

end SourceTree

/-- The key belongs to one input exactly if nothing is hashed but the options and a header that does
not begin with a path. -/
theorem unambiguous_iff (x : BuildInputs) :
    Unambiguous x ↔ x.tree.files = [] ∧
    ∀ path : SourcePath, ¬ encode path.asPosix <+: x.header := by
  constructor
  · intro h
    have hfiles : x.tree.files = [] := by
      -- everything may as well be the header
      have hsame := h { x with
        tree := .empty
        header := x.tree.files.flatMap feedFile ++ x.header } rfl
      exact (congrArg (fun y ↦ y.tree.files) hsame).symm
    refine ⟨hfiles, ?_⟩
    rintro path ⟨contents, hheader⟩
    -- the header may as well be a source
    have hsame := h { x with tree := .single path contents, header := [] } (by
      simp only [feed, SourceTree.single, hfiles, List.flatMap_cons, List.flatMap_nil, feedFile,
        List.append_nil, List.nil_append, hheader])
    have htree := congrArg (fun y ↦ y.tree.files) hsame
    rw [hfiles] at htree
    exact nomatch htree
  · rintro ⟨hfiles, hheader⟩ y h
    obtain ⟨hoptions, hrest⟩ := rest_eq_of_feed_eq h
    rw [hfiles, List.flatMap_nil, List.nil_append] at hrest
    cases hy : y.tree.files with
    | nil =>
        rw [hy, List.flatMap_nil, List.nil_append] at hrest
        exact BuildInputs.ext hoptions (hy.trans hfiles.symm) hrest
    | cons file files =>
        rw [hy, List.flatMap_cons, feedFile, List.append_assoc, List.append_assoc] at hrest
        exact absurd ⟨_, hrest⟩ (hheader file.1)

/-- A build with one source and a header. -/
def sample (path : SourcePath) (contents : String) : BuildInputs where
  options := ⟨[("board".toList, .str "nrf52840dk/nrf52840".toList)], List.pairwise_singleton _ _⟩
  tree := .single path (encode contents.toList)
  header := encode "static const int credential = 1;\n".toList

/-- The end of a path may as well be the beginning of the contents. -/
theorem not_feed_injective : ¬ ∀ x y, x ≠ y → feed x ≠ feed y := by
  intro h
  let short : SourcePath := ⟨["src".toList, "main.c".toList], by decide, by decide⟩
  let long : SourcePath := ⟨["src".toList, "main.cc".toList], by decide, by decide⟩
  refine h (sample short "c int x;") (sample long " int x;") (fun heq ↦ ?_) (by decide)
  have hparts := congrArg (fun x ↦ x.tree.files.map fun file ↦ file.1.parts) heq
  revert hparts
  decide

end CacheKey

end PeripheralBench.Runner
