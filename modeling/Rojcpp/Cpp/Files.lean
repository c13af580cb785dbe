import Rojcpp.Cpp.Text

/-!
# Paths and files

`std::filesystem::path` on a POSIX system, as its text, and the part of the file system the
program looks at.  What a call of the file system library throws is kept as the text of the
exception, since every caller catches `std::exception` and prints it.

A name of a directory entry holds no slash: it comes from `readdir`.
-/

namespace Rojcpp

open Rojcpp.Lib

/-- `fs::path`, as its text. -/
abbrev Path := Str

/-- The directory separator. -/
abbrev slash : UInt8 := '/'

/-- A non-ASCII string constant of the source, in UTF-8. -/
def utf8 (s : String) : Str := s.toUTF8.data.toList

/-- `c_str()` as a C library function sees it: what stands before the first NUL. -/
def cStr (s : Str) : Str := s.takeWhile fun c => c != 0

/-- `operator/` of paths: an absolute right side replaces the left one. -/
def Path.append (p q : Path) : Path :=
  if q.head? = some slash then q
  else if p = [] ∨ p.getLast? = some slash then p ++ q
  else p ++ slash :: q

/-- `filename()`: what stands behind the last separator. -/
def Path.filename (p : Path) : Path := (p.reverse.takeWhile fun c => c != slash).reverse

/-- What stands before the last occurrence of a byte, if the byte occurs. -/
def beforeLast (c : UInt8) (s : Str) : Option Str :=
  match (s.reverse.dropWhile fun d => d != c) with
  | [] => none
  | _ :: t => some t.reverse

/-- `stem()`: the file name without its extension. -/
def Path.stem (p : Path) : Path :=
  if p.filename = ascii "." ∨ p.filename = ascii ".." then p.filename
  else
    match beforeLast '.' p.filename with
    | none | some [] => p.filename
    | some s => s

/-- `std::quoted`, which `operator<<` applies to a path. -/
def quotedPath (p : Path) : Str :=
  let dquote : UInt8 := '"'
  let backslash : UInt8 := '\\'
  dquote :: (p.flatMap fun c => if c = dquote ∨ c = backslash then [backslash, c] else [c]) ++
    [dquote]

/-- The name of a directory entry. -/
structure FileName where
  text : Str
  noSlash : slash ∉ text

/-- The file system as the program sees it: `fs::exists`, the entries a `directory_iterator`
visits, the contents of a file an `ifstream` can open, and whether an `ofstream` can open it. -/
structure FileSystem where
  exist : Path → Except Str Bool
  entries : Path → Except Str (List FileName)
  read : Path → Option Str
  writable : Path → Bool

/-- `writeFile`: a file that cannot be opened for writing stays as it was. -/
def FileSystem.writeFile (fs : FileSystem) (p : Path) (code : Str) : FileSystem :=
  if fs.writable p then
    { fs with
      exist := fun q => if q = p then .ok true else fs.exist q
      read := fun q => if q = p then some code else fs.read q }
  else fs

/-- `readFile`: a file that cannot be opened gives an empty text. -/
def FileSystem.readFile (fs : FileSystem) (p : Path) : Str := (fs.read p).getD []

/-! ### File names -/

theorem filename_of_append (p name : Str) (hname : slash ∉ name) :
    Path.filename (p ++ slash :: name) = name := by
  have hall : ∀ c ∈ name.reverse, (c != slash) = true := by
    intro c hc
    rw [bne_iff_ne]
    rintro rfl
    exact hname (List.mem_reverse.mp hc)
  simp only [Path.filename, List.reverse_append, List.reverse_cons, List.append_assoc]
  rw [List.takeWhile_append_of_pos hall]
  simp

/-- An entry of a directory has its own name as file name. -/
theorem append_eq (p : Path) (name : Str) (hp : p ≠ []) (hlast : p.getLast? ≠ some slash)
    (hname : slash ∉ name) : p.append name = p ++ slash :: name := by
  have hhead : name.head? ≠ some slash := by
    intro h
    exact hname (List.mem_of_mem_head? h)
  rw [Path.append, if_neg hhead, if_neg (by simp [hp, hlast])]

end Rojcpp
