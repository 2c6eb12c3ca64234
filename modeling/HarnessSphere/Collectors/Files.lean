import HarnessSphere.Library.Utf8
import HarnessSphere.Library.Lines
import Mathlib.Data.List.Dedup
import Mathlib.Data.List.Sort

/-! # The file system one collection sees

Names are bytes, paths are lists of names. A file system answers each call the collectors make; a
call that fails answers nothing, and a directory never lists one name twice. Two answers about the
same file need not agree, since the disk may change between the calls.
-/

namespace HarnessSphere

abbrev OsString := List UInt8

namespace OsString

def toStr (s : OsString) : Option String := (Utf8.decode s).map String.ofList

def ofStr (s : String) : OsString := Utf8.encode s.toList

theorem toStr_eq_some_iff {s : OsString} {t : String} : toStr s = some t ↔ s = ofStr t := by
  rw [toStr, Option.map_eq_some_iff]
  constructor
  · rintro ⟨cs, hDecode, rfl⟩
    rw [ofStr, String.toList_ofList, Utf8.encode_of_decode hDecode]
  · rintro rfl
    exact ⟨t.toList, Utf8.decode_encode _, String.ofList_toList⟩

@[simp] theorem toStr_ofStr (s : String) : toStr (ofStr s) = some s := toStr_eq_some_iff.mpr rfl

def dot : UInt8 := 46

def rsplitFileAtDot (file : OsString) : Option OsString × Option OsString :=
  if file = [dot, dot] then (some file, none)
  else
    let head := Lines.complete dot file
    if head = [] then (none, some file)
    else if head = [dot] then (some file, none)
    else (some head.dropLast, some (file.drop head.length))

end OsString

/-- The names from the first component on; an absolute path starts with an empty one. -/
abbrev Path := List OsString

namespace Path

instance : LawfulBEq Path := inferInstance

def join (p : Path) (name : String) : Path := p ++ [OsString.ofStr name]

/-- The last component, unless it is the root or leads upwards. -/
def fileName (p : Path) : Option OsString :=
  p.getLast?.filter fun name => name ≠ [] ∧ name ≠ [OsString.dot, OsString.dot]

def extension (p : Path) : Option OsString := do
  let (before, after) := OsString.rsplitFileAtDot (← fileName p)
  before.bind fun _ => after

def fileStem (p : Path) : Option OsString := do
  let (before, after) := OsString.rsplitFileAtDot (← fileName p)
  before.or after

def withExtension (p : Path) (ext : String) : Path :=
  match fileStem p with
  | none => p
  | some stem => p.dropLast ++ [if ext = "" then stem else stem ++ OsString.dot :: OsString.ofStr ext]

/-- A component that is not UTF-8 shows as one replacement character. -/
def display (p : Path) : String :=
  String.intercalate "/" (p.map fun name => (OsString.toStr name).getD "\uFFFD")

end Path

structure Metadata where
  isDir : Bool
  isFile : Bool
  len : Nat
  deriving DecidableEq, Repr

/-- What a listing says about a name; `fileType` tells whether it is a directory. -/
structure DirEntry where
  fileName : OsString
  fileType : Option Bool
  metadata : Option Metadata
  deriving DecidableEq, Repr

/-- The entries that could be read, in the order of the listing. -/
structure Listing where
  entries : List DirEntry
  nodup : (entries.map DirEntry.fileName).Nodup

structure OpenFile where
  seekable : Bool
  content : Option (List UInt8)
  deriving DecidableEq, Repr

structure Fs where
  readDir : Path → Option Listing
  metadata : Path → Option Metadata
  openFile : Path → Option OpenFile

def DirEntry.path (e : DirEntry) (dir : Path) : Path := dir ++ [e.fileName]

namespace Fs

variable (fs : Fs)

def isDir (p : Path) : Bool := ((fs.metadata p).map Metadata.isDir).getD false

def isFile (p : Path) : Bool := ((fs.metadata p).map Metadata.isFile).getD false

def entries (p : Path) : List DirEntry := ((fs.readDir p).map Listing.entries).getD []

def wholeFile (p : Path) : Option (List UInt8) := do
  let f ← fs.openFile p
  if f.seekable then f.content else none

/-- The bytes a reader gets that opens the file and seeks to `offset`. -/
def readBytes (p : Path) (offset : Nat) : Option (List UInt8) :=
  (fs.wholeFile p).map fun content => content.drop offset

/-- `read_to_string`, which fails on bytes that are not UTF-8. -/
def readToString (p : Path) : Option (List Char) := do
  let f ← fs.openFile p
  Utf8.decode (← f.content)

theorem entries_nodup (p : Path) : ((fs.entries p).map DirEntry.fileName).Nodup := by
  rw [entries]
  cases fs.readDir p with
  | none => exact List.nodup_nil
  | some listing => exact listing.nodup

theorem nodup_filterMap_entries (p : Path) {pick : DirEntry → Option Path} (tail : Path)
    (hPick : ∀ e q, pick e = some q → q = e.path p ++ tail) :
    ((fs.entries p).filterMap pick).Nodup := by
  have hSub (es : List DirEntry) :
      (es.filterMap pick).Sublist ((es.map DirEntry.fileName).map fun n => p ++ [n] ++ tail) := by
    induction es with
    | nil => exact .slnil
    | cons e es ih =>
      rw [List.filterMap_cons]
      cases he : pick e with
      | none => exact ih.cons _
      | some q =>
        rw [hPick e q he]
        exact ih.cons_cons _
  refine (List.Nodup.map ?_ (fs.entries_nodup p)).sublist (hSub _)
  intro n m h
  simpa using h

/-- What is picked from the entries of different directories differs, as its path does. -/
theorem nodup_flatMap_entries {β : Type*} {dirs : List Path} (hDirs : dirs.Nodup)
    {pick : Path → DirEntry → Option β} (path : β → Path)
    (hPick : ∀ dir e b, pick dir e = some b → path b = e.path dir) :
    (dirs.flatMap fun dir => (fs.entries dir).filterMap (pick dir)).Nodup := by
  refine List.nodup_flatMap.mpr ⟨fun dir _ => ?_, hDirs.imp fun hNe => ?_⟩
  · apply List.Nodup.of_map path
    rw [List.map_filterMap]
    apply fs.nodup_filterMap_entries dir []
    intro e q hq
    obtain ⟨b, hb, rfl⟩ := Option.map_eq_some_iff.mp hq
    exact (hPick dir e b hb).trans (List.append_nil _).symm
  · intro b hb hb'
    obtain ⟨e, -, he⟩ := List.mem_filterMap.mp hb
    obtain ⟨e', -, he'⟩ := List.mem_filterMap.mp hb'
    have hPath := (hPick _ e b he).symm.trans (hPick _ e' b he')
    exact hNe (List.append_inj_left' hPath rfl)

end Fs

/-- A disk at rest, where every call succeeds. -/
structure Disk where
  dirs : List Path
  files : List (Path × List UInt8)

namespace Disk

variable (d : Disk)

def paths : List Path := d.dirs ++ d.files.map Prod.fst

def isDir (p : Path) : Bool :=
  p ∈ d.dirs || d.paths.any fun q => p.isPrefixOf q && p.length < q.length

def stat (p : Path) : Option Metadata :=
  if d.isDir p then some ⟨true, false, 0⟩
  else (d.files.lookup p).map fun content => ⟨false, true, content.length⟩

def childNames (p : Path) : List OsString :=
  (d.paths.filterMap fun q => if p.isPrefixOf q then (q.drop p.length).head? else none).dedup

def entry (p : Path) (name : OsString) : DirEntry :=
  ⟨name, (d.stat (p ++ [name])).map Metadata.isDir, d.stat (p ++ [name])⟩

def listing (p : Path) : Listing where
  entries := (d.childNames p).map (d.entry p)
  nodup := by
    rw [List.map_map]
    exact (List.map_id _).symm ▸ List.nodup_dedup _

def fs : Fs where
  readDir p := if d.isDir p then some (d.listing p) else none
  metadata := d.stat
  openFile p := (d.files.lookup p).map fun content => ⟨true, some content⟩

theorem isDir_fs (p : Path) : d.fs.isDir p = d.isDir p := by
  change ((d.stat p).map Metadata.isDir).getD false = d.isDir p
  rw [stat]
  cases hDir : d.isDir p with
  | true => rfl
  | false => cases d.files.lookup p <;> rfl

end Disk

end HarnessSphere
