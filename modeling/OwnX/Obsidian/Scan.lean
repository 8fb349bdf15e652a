import OwnX.Foundations.GoMap
import OwnX.Foundations.Text

/-!
# Unused images (`obsidian/scan_unused_imgs.go`)

`scan` walks through a directory and marks the images that the Markdown files in it embed as `![[name]]`.
In each line it takes what stands between the first `![[` and the last `]]`.

A file is read by lines with a `bufio.Scanner`, which stops at a line that does not fit into its buffer.
The functions of the package `os` are a parameter.
-/

namespace OwnX.Obsidian

/-- `existsImages`: `0` for an image that has not been found, `1` for one that has. -/
abbrev Images := GoMap Text Int

def opening : Text := ascii "![["

def closing : Text := ascii "]]"

/-- `line[strings.Index(line, "![[")+3 : strings.LastIndex(line, "]]")]`; `none` is the panic. -/
def extract (line : Text) : Option Text :=
  Text.slice line (Text.position (Text.index line opening) + 3)
    (Text.position (Text.lastIndex line closing))

/-- `existsImages[img] = 1`, if it is there. -/
def mark (existsImages : Images) (img : Text) : Images :=
  if (existsImages.get? img).isSome then existsImages.set img 1 else existsImages

/-- What `scan` does with a line; `none` is the panic. -/
def scanLine (existsImages : Images) (line : Text) : Option Images :=
  if Text.contains line opening then (extract line).map (mark existsImages) else some existsImages

/-- The loop over the lines. -/
def scanLines : List Text → Images → Option Images
  | [], existsImages => some existsImages
  | line :: lines, existsImages => (scanLine existsImages line).bind (scanLines lines)

/-! ## The lines of a file -/

/-- The pieces between the newlines; behind the last newline there is one only if it is not empty. -/
def rawLines (content : Text) : List Text :=
  let pieces := content.splitOnP (· == 10)
  if pieces.getLast? = some [] then pieces.dropLast else pieces

/-- A line without the carriage return at its end. -/
def dropCR (line : Text) : Text := if line.getLast? = some 13 then line.dropLast else line

/-- The lines, without what ends them. -/
def linesOf (content : Text) : List Text := (rawLines content).map dropCR

/-- `bufio.MaxScanTokenSize`. A line has to fit in with its newline. -/
def maxScanTokenSize : Nat := 64 * 1024

/-- The lines that the scanner gives before it stops. -/
def tokens (content : Text) : List Text :=
  ((rawLines content).takeWhile fun raw => raw.length < maxScanTokenSize).map dropCR

/-- What `scan` does with a file. -/
def scanFile (existsImages : Images) (content : Text) : Option Images :=
  scanLines (tokens content) existsImages

/-! ## The walk -/

/-- `os.DirEntry`. -/
structure DirEntry where
  name : Text
  isDir : Bool

/-- What the code uses of `os`. -/
structure FileSystem where
  /-- `os.ReadDir`, also when it fails. -/
  readDir : Text → List DirEntry
  /-- The content of the file, of which a directory has none; `none` if `os.Open` fails. -/
  openFile : Text → Option Text

/-- `ignoreDirs`. -/
def ignoreDirs : List Text :=
  [ascii "Illustrations", ascii ".git", ascii ".obsidian", ascii ".trash"]

/-- The test for a Markdown file. -/
def isMarkdown (name : Text) : Bool := decide (0 < Text.position (Text.lastIndex name (ascii ".md")))

/-- What there is to scan in an entry: nothing, if it is not a Markdown file. `none` if it cannot be
opened. -/
def contentOf (fs : FileSystem) (rootDir : Text) (entry : DirEntry) : Option Text :=
  if isMarkdown entry.name then fs.openFile (rootDir ++ entry.name) else some []

/-- `rootDir + entry.Name() + "/"`. -/
def subDir (rootDir : Text) (entry : DirEntry) : Text := rootDir ++ entry.name ++ ascii "/"

/-- What a scan ends with: the images, or the panic. The outer `none` says that the fuel ran out. -/
abbrev Result := Option (Option Images)

/-- The loop of `scan` over the entries of a directory. The recursive call is `call`. -/
def scanEntries (fs : FileSystem) (call : Text → Images → Result) (rootDir : Text) :
    List DirEntry → Images → Result
  | [], existsImages => some (some existsImages)
  | entry :: entries, existsImages =>
    if entry.name ∈ ignoreDirs then scanEntries fs call rootDir entries existsImages
    else
      match contentOf fs rootDir entry with
      -- the file cannot be opened: `continue`
      | none => scanEntries fs call rootDir entries existsImages
      | some content =>
        match scanFile existsImages content with
        | none => some none
        | some images =>
          if entry.isDir then
            match call (subDir rootDir entry) images with
            | some (some images') => scanEntries fs call rootDir entries images'
            | r => r
          else scanEntries fs call rootDir entries images

/-- `scan`, to a depth of `fuel` directories. -/
def scan (fs : FileSystem) : Nat → Text → Images → Result
  | 0, _, _ => none
  | fuel + 1, rootDir, existsImages =>
    scanEntries fs (scan fs fuel) rootDir (fs.readDir rootDir) existsImages

/-- `ScanUnusedImages`: the images that it prints. -/
def scanUnusedImages (fs : FileSystem) (fuel : Nat) (root imgDir : Text) : Option (Option (List Text)) :=
  let existsImages : Images :=
    ({} : Images).setAll ((fs.readDir imgDir).map fun entry => (entry.name, 0))
  (scan fs fuel root existsImages).map fun r =>
    r.map fun images => (images.entries.filter fun e => e.2 = 0).map Prod.fst

/-! ## What it is for -/

/-- `![[name]]` stands in the line. -/
def Embeds (line name : Text) : Prop :=
  ¬closing <:+: name ∧ ∃ pre post, line = pre ++ opening ++ name ++ closing ++ post

/-- The scan of the file does not panic, and marks every image that is embedded in it. -/
def Marks (existsImages : Images) (content : Text) : Prop :=
  ∃ images, scanFile existsImages content = some images ∧
    ∀ line ∈ linesOf content, ∀ name, Embeds line name → (existsImages.get? name).isSome →
      images.get? name = some 1

/-- If there is a `![[` in the line, then some `![[` has a `]]` behind it. -/
def Closed (line : Text) : Prop :=
  opening <:+: line → ∃ pre mid post, line = pre ++ opening ++ mid ++ closing ++ post

/-- `![[name]]` stands in the line, with no `![[` before it, and no `]]` behind it or in its end. -/
def StandsAlone (line name : Text) : Prop :=
  ∃ pre post, line = pre ++ opening ++ name ++ closing ++ post ∧ ¬opening <:+: pre ∧
    ¬closing <:+: 93 :: post

/-- The lines that the scanner gives are closed, and every image that is embedded in a line of the file
stands alone in one of those that the scanner gives. -/
structure Covered (existsImages : Images) (content : Text) : Prop where
  closed : ∀ line ∈ tokens content, Closed line
  alone : ∀ line ∈ linesOf content, ∀ name, Embeds line name → (existsImages.get? name).isSome →
    existsImages.get? name ≠ some 1 → ∃ line' ∈ tokens content, StandsAlone line' name

/-- `scan` goes through this content when it is called for the directory. -/
inductive Visits (fs : FileSystem) : Text → Text → Prop where
  /-- The content of an entry. -/
  | here {rootDir content : Text} {entry : DirEntry} (hentry : entry ∈ fs.readDir rootDir)
      (hname : entry.name ∉ ignoreDirs) (hopen : contentOf fs rootDir entry = some content) :
      Visits fs rootDir content
  /-- What it goes through in a directory below. -/
  | deeper {rootDir content : Text} {entry : DirEntry} (hentry : entry ∈ fs.readDir rootDir)
      (hname : entry.name ∉ ignoreDirs) (hopen : (contentOf fs rootDir entry).isSome)
      (hdir : entry.isDir = true) (h : Visits fs (subDir rootDir entry) content) :
      Visits fs rootDir content

/-- There is an end to the directories below a directory: its depth is greater than theirs. -/
def Nested (fs : FileSystem) (depth : Text → Nat) : Prop :=
  ∀ rootDir, ∀ entry ∈ fs.readDir rootDir, entry.isDir = true →
    depth (subDir rootDir entry) < depth rootDir

end OwnX.Obsidian
