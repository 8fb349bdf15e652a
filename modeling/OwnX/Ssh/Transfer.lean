import OwnX.Foundations.FileTree

/-!
# Files to and from a host (`ssh/client.go`)

`putFile` copies a local tree to a host, `getFile` reads one from there. The `sftp.Client` and the host
behind it are a parameter: a state of any type, and what each request makes of it and returns. A request
may fail, also halfway: a directory is made but the next one is not, a file is written in part, or it is
done and the answer is lost. What is local may fail to open.

Before it writes a file `putFile` asks for its directory with `Stat`, which decides nothing: `os.IsExist`
is false of nil, and so the directory is made in any case. Paths are absolute and clean, as
`filepath.Join` leaves them. The logger and the texts of the errors are left out; an error has the path it
is about.
-/

namespace OwnX.Ssh

variable {σ β : Type}

/-! ## The client and the host -/

/-- What `putFile` asks of the host: `MkdirAll`, `Create`, `Chmod` of the client or of the open file, and
`io.Copy` to the open file. -/
inductive Request (β : Type) where
  | mkdirAll (dir : Path)
  | create (file : Path)
  | chmod (mode : Nat) (path : Path)
  | copy (data : List β) (file : Path)

/-- `os.FileInfo`. -/
structure FileInfo where
  isDir : Bool
  mode : Nat
  deriving DecidableEq, Repr

/-- What is used of an `sftp.Client`, with the host behind it. The host is in a state of type `σ`, and a
flag says whether nil was returned. -/
structure Sftp (σ β : Type) where
  request : Request β → σ → σ × Bool
  /-- `Open`. -/
  openFile : Path → σ → σ × Bool
  /-- `Stat` of the open file. -/
  stat : Path → σ → σ × Option FileInfo
  /-- `ReadDir`, of which the names are used. -/
  readDir : Path → σ → σ × Option (List String)
  /-- `io.Copy` from the open file: what was read of it. -/
  read : Path → σ → σ × List β × Bool

/-! ## `putFile` -/

/-- The errors of `putFile`. -/
inductive PutError where
  | openLocal (path : Path)
  | statLocal (path : Path)
  | readLocalDir (path : Path)
  | mkdir (dir : Path)
  | create (file : Path)
  | chmod (file : Path)
  | copy (file : Path)
  deriving DecidableEq, Repr

/-- A connected `Cmd`, with the error of opening each local file or directory. -/
structure Client (σ β : Type) extends Sftp σ β where
  localError : Path → Option PutError

namespace Client

/-- `putFile` of a file, from where it has been opened. -/
def putRegular (c : Client σ β) (mode : Nat) (data : List β) (remotePath : Path) (name : String) (s : σ) :
    σ × Option PutError :=
  let file := remotePath ++ [name]
  let r := c.request (.mkdirAll remotePath) s
  if !r.2 then (r.1, some (.mkdir remotePath))
  else
    let r := c.request (.create file) r.1
    if !r.2 then (r.1, some (.create file))
    else
      let r := c.request (.chmod mode file) r.1
      if !r.2 then (r.1, some (.chmod file))
      else
        let r := c.request (.copy data file) r.1
        if !r.2 then (r.1, some (.copy file)) else (r.1, none)

/-- `putFile` makes a directory. Its errors are ignored. -/
def makeDir (c : Client σ β) (mode : Nat) (targetDir : Path) (s : σ) : σ :=
  (c.request (.chmod mode targetDir) (c.request (.mkdirAll targetDir) s).1).1

mutual

/-- `putFile` of the local tree `localPath`, whose last name is `name`. -/
def putFile (c : Client σ β) (localPath remotePath : Path) (name : String) :
    FileTree β → σ → σ × Option PutError
  | .file mode data, s =>
    match c.localError localPath with
    | some err => (s, some err)
    | none => c.putRegular mode data remotePath name s
  | .dir mode files, s =>
    match c.localError localPath with
    | some err => (s, some err)
    | none =>
      let targetDir := remotePath ++ [name]
      c.putFiles localPath targetDir files (c.makeDir mode targetDir s)

/-- The loop of `putFile` over the files of a directory. -/
def putFiles (c : Client σ β) (localPath targetDir : Path) : FileForest β → σ → σ × Option PutError
  | .nil, s => (s, none)
  | .cons name t rest, s =>
    match c.putFile (localPath ++ [name]) targetDir name t s with
    | (s, some err) => (s, some err)
    | (s, none) => c.putFiles localPath targetDir rest s

end

end Client

/-! ## `getFile` -/

/-- The errors of `getFile`; those of the two functions it is given are passed on. -/
inductive GetError where
  | openRemote (path : Path)
  | statRemote (path : Path)
  | createDir (path : Path)
  | readRemoteDir (path : Path)
  | getWriter (path : Path)
  | copy (path : Path)
  deriving DecidableEq, Repr

/-- The functions that `getFile` is given: whether they return nil, and how much a writer takes before it
fails. -/
structure Receiver where
  createDir : Path → FileInfo → Bool
  getWriter : Path → FileInfo → Bool
  write : Path → Option Nat

/-- What comes of a call of `getFile`: the directories it has created and the files it has written, in
order, and the error it returns. -/
structure Got (σ β : Type) where
  host : σ
  passed : List (Path × Entry β)
  err : Option GetError

namespace Sftp

/-- `getFile` of a file, from where it is known to be one. -/
def getRegular (c : Sftp σ β) (r : Receiver) (path : Path) (info : FileInfo) (s : σ) : Got σ β :=
  if !r.getWriter path info then ⟨s, [], some (.getWriter path)⟩
  else
    let x := c.read path s
    match r.write path with
    | some k => ⟨x.1, [(path, .file info.mode (x.2.1.take k))], some (.copy path)⟩
    | none => ⟨x.1, [(path, .file info.mode x.2.1)], if x.2.2 then none else some (.copy path)⟩

/-- The loop of `getFile` over the names in a directory; `get` is `getFile`. -/
def getFiles (get : Path → σ → Option (Got σ β)) (path : Path) : List String → σ → Option (Got σ β)
  | [], s => some ⟨s, [], none⟩
  | name :: names, s =>
    (get (path ++ [name]) s).bind fun g =>
      match g.err with
      | some err => some ⟨g.host, g.passed, some err⟩
      | none => (getFiles get path names g.host).map fun g' => { g' with passed := g.passed ++ g'.passed }

/-- `getFile` of a directory, from where it is known to be one. -/
def getDir (c : Sftp σ β) (r : Receiver) (get : Path → σ → Option (Got σ β)) (path : Path)
    (info : FileInfo) (s : σ) : Option (Got σ β) :=
  if !r.createDir path info then some ⟨s, [], some (.createDir path)⟩
  else
    match c.readDir path s with
    | (s, none) => some ⟨s, [(path, .dir info.mode)], some (.readRemoteDir path)⟩
    | (s, some names) =>
      (getFiles get path names s).map fun g => { g with passed := (path, .dir info.mode) :: g.passed }

/-- `getFile`, down to a depth of `fuel`; `none` means that this was not enough. -/
def getFile (c : Sftp σ β) (r : Receiver) : Nat → Path → σ → Option (Got σ β)
  | 0, _, _ => none
  | fuel + 1, path, s =>
    match c.openFile path s with
    | (s, false) => some ⟨s, [], some (.openRemote path)⟩
    | (s, true) =>
      match c.stat path s with
      | (s, none) => some ⟨s, [], some (.statRemote path)⟩
      | (s, some info) =>
        if info.isDir then c.getDir r (c.getFile r fuel) path info s
        else some (c.getRegular r path info s)

end Sftp

/-! ## What is documented of the client and the host

The requests of an `sftp.Client`, by what stands at the paths of the host before and after them. No path
leads to another one, and nobody else changes anything. -/

/-- What stands at each path of a host. -/
abbrev Standing (β : Type) := Path → Option (Entry β)

namespace Request

/-- What a request may have done, whatever it returns: directories on the way are made, a file is made or
emptied, a mode is changed, or the beginning of a file is overwritten. -/
def May : Request β → Standing β → Standing β → Prop
  | .mkdirAll dir, before, after =>
    ∀ q, after q = before q ∨ q <+: dir ∧ before q = none ∧ ∃ m, after q = some (.dir m)
  | .create file, before, after =>
    (∀ q, q ≠ file → after q = before q) ∧
      (after file = before file ∨ ∃ m, after file = some (.file m []))
  | .chmod mode path, before, after =>
    (∀ q, q ≠ path → after q = before q) ∧
      (after path = before path ∨ after path = (before path).map (Entry.setMode mode))
  | .copy data file, before, after =>
    (∀ q, q ≠ file → after q = before q) ∧
      (after file = before file ∨ ∃ m old written, before file = some (.file m old) ∧ written <+: data ∧
        after file = some (.file m (written ++ old.drop written.length)))

/-- What it has done when it returns nil. -/
def Does : Request β → Standing β → Standing β → Prop
  | .mkdirAll dir, _, after => ∃ m, after dir = some (.dir m)
  | .create file, _, after => ∃ m, after file = some (.file m [])
  | .chmod mode path, before, after => after path = (before path).map (Entry.setMode mode)
  | .copy data file, before, after =>
    ∀ m old, before file = some (.file m old) → after file = some (.file m (data ++ old.drop data.length))

/-- Nothing that stands on the host is in its way. -/
def Able : Request β → Standing β → Prop
  | .mkdirAll dir, before => ∀ q, q <+: dir → ∀ m d, before q ≠ some (.file m d)
  | .create file, before =>
    before file = none ∧ ∃ parent name m, file = parent ++ [name] ∧ before parent = some (.dir m)
  | .chmod _ path, before => ∃ e, before path = some e
  | .copy _ file, before => ∃ m d, before file = some (.file m d)

end Request

/-- The information that `Stat` returns. -/
def infoOf : Entry β → FileInfo
  | .dir mode => ⟨true, mode⟩
  | .file mode _ => ⟨false, mode⟩

namespace Sftp

/-- The requests do what is documented: a part of it in any case, and all of it when they return nil. -/
structure Writes (c : Sftp σ β) (stands : σ → Standing β) : Prop where
  tree : ∀ s p n e, stands s (p ++ [n]) = some e → ∃ m, stands s p = some (.dir m)
  may : ∀ (r : Request β) s, r.May (stands s) (stands (c.request r s).1)
  does : ∀ (r : Request β) s, (c.request r s).2 = true → r.Does (stands s) (stands (c.request r s).1)

/-- What is read is what stands on the host, which is left as it is. -/
structure Reads (c : Sftp σ β) (stands : σ → Standing β) : Prop where
  openFile : ∀ p s, stands (c.openFile p s).1 = stands s
  stat : ∀ p s, stands (c.stat p s).1 = stands s
  readDir : ∀ p s, stands (c.readDir p s).1 = stands s
  read : ∀ p s, stands (c.read p s).1 = stands s
  stat_eq : ∀ p s i, (c.stat p s).2 = some i → (stands s p).map infoOf = some i
  names : ∀ p s l, (c.readDir p s).2 = some l → l.Nodup ∧ ∀ n, n ∈ l ↔ stands s (p ++ [n]) ≠ none
  data_part : ∀ p s m d, stands s p = some (.file m d) → (c.read p s).2.1 <+: d
  data_eq : ∀ p s m d, stands s p = some (.file m d) → (c.read p s).2.2 = true → (c.read p s).2.1 = d

/-- Nothing fails but what cannot work. -/
structure Reliable (c : Sftp σ β) (stands : σ → Standing β) : Prop where
  request : ∀ (r : Request β) s, r.Able (stands s) → (c.request r s).2 = true
  openFile : ∀ p s, stands s p ≠ none → (c.openFile p s).2 = true
  stat : ∀ p s, stands s p ≠ none → (c.stat p s).2 ≠ none
  readDir : ∀ p s m, stands s p = some (.dir m) → (c.readDir p s).2 ≠ none
  read : ∀ p s m d, stands s p = some (.file m d) → (c.read p s).2.2 = true

end Sftp

/-- The functions that `getFile` is given return nil, and the writers take everything. -/
structure Receiver.Reliable (r : Receiver) : Prop where
  createDir : ∀ p i, r.createDir p i = true
  getWriter : ∀ p i, r.getWriter p i = true
  write : ∀ p, r.write p = none

end OwnX.Ssh
