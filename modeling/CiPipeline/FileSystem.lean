import CiPipeline.Text.Split

/-!
# A file system

Files and directories as a program sees them from its working directory. `write` and `read` follow
a path name by name, and fail with the first obstacle on the way. `read_write` says that a file
holds what was written to it last.
-/

namespace CiPipeline

inductive FileError where
  | notFound
  | notADirectory
  | isADirectory
  | alreadyExists
  | nameTooLong
  | nulInName
  | notText
  /-- Any other reason that a system gives. -/
  | other (text : String)
  deriving DecidableEq, Repr

def FileError.message : FileError → String
  | notFound => "No such file or directory (os error 2)"
  | notADirectory => "Not a directory (os error 20)"
  | isADirectory => "Is a directory (os error 21)"
  | alreadyExists => "File exists (os error 17)"
  | nameTooLong => "File name too long (os error 36)"
  | nulInName => "file name contained an unexpected NUL byte"
  | notText => "stream did not contain valid UTF-8"
  | other text => text

/-- The names on the way from the working directory. Names above it are `..`, and a place below the
root begins with `/`. -/
abbrev Place := List String

inductive FileEntry where
  | file (content : ByteArray)
  | directory

structure FileSystem where
  entries : List (Place × FileEntry) := []

namespace FileSystem

/-- The working directory, the root, and the directories above are always there. -/
def at? (fs : FileSystem) (place : Place) : Option FileEntry :=
  if place.all (· == "..") || place == ["/"] then some .directory
  else (fs.entries.find? (·.1 == place)).map (·.2)

def setEntry (fs : FileSystem) (place : Place) (entry : FileEntry) : FileSystem :=
  ⟨(place, entry) :: fs.entries.filter (·.1 != place)⟩

def parent (place : Place) : Place :=
  match place.getLast? with
  | none | some ".." => place ++ [".."]
  | some "/" => place
  | some _ => place.dropLast

def checkName (name : String) : Except FileError Unit :=
  if 255 < name.utf8ByteSize then .error .nameTooLong else .ok ()

/-- The place reached from a directory through directories only. -/
def walk (fs : FileSystem) (place : Place) : List String → Except FileError Place
  | [] => .ok place
  | "." :: names => walk fs place names
  | ".." :: names => walk fs (parent place) names
  | name :: names => do
    checkName name
    match fs.at? (place ++ [name]) with
    | none => .error .notFound
    | some (.file _) => .error .notADirectory
    | some .directory => walk fs (place ++ [name]) names

/-- A path taken apart: where it starts, the directories on the way, and the last name. -/
structure Route where
  start : Place
  directories : List String
  last : Option String
  /-- A slash at the end asks for a directory. -/
  endsInSlash : Bool

def Route.of (path : String) : Except FileError Route :=
  let text := path.toList
  let names := ((Text.split '/' text).filter (!·.isEmpty)).map String.ofList
  if text.contains '\x00' then .error .nulInName
  else if text.isEmpty then .error .notFound
  else if 4096 ≤ path.utf8ByteSize then .error .nameTooLong
  else .ok {
    start := if text.head? = some '/' then ["/"] else []
    directories := names.dropLast
    last := names.getLast?
    endsInSlash := text.getLast? = some '/' }

/-- The place that a path names as a file to be created or replaced. -/
def creationPlace (fs : FileSystem) (path : String) : Except FileError Place := do
  let route ← Route.of path
  let directory ← fs.walk route.start route.directories
  match route.last with
  | none | some "." | some ".." => .error .isADirectory
  | some name =>
    if route.endsInSlash then .error .isADirectory
    else
      checkName name
      match fs.at? (directory ++ [name]) with
      | some .directory => .error .isADirectory
      | _ => .ok (directory ++ [name])

def write (fs : FileSystem) (path : String) (content : ByteArray) : Except FileError FileSystem := do
  let place ← fs.creationPlace path
  return fs.setEntry place (.file content)

/-- The entry that a path leads to. -/
def resolve (fs : FileSystem) (path : String) : Except FileError FileEntry := do
  let route ← Route.of path
  let directory ← fs.walk route.start route.directories
  match route.last with
  | none | some "." | some ".." => .ok .directory
  | some name =>
    checkName name
    match fs.at? (directory ++ [name]) with
    | none => .error .notFound
    | some (.file content) =>
      if route.endsInSlash then .error .notADirectory else .ok (.file content)
    | some .directory => .ok .directory

def read (fs : FileSystem) (path : String) : Except FileError ByteArray := do
  match ← fs.resolve path with
  | .file content => .ok content
  | .directory => .error .isADirectory

def readText (fs : FileSystem) (path : String) : Except FileError String := do
  match String.fromUTF8? (← fs.read path) with
  | some text => .ok text
  | none => .error .notText

def writeText (fs : FileSystem) (path text : String) : Except FileError FileSystem :=
  fs.write path text.toUTF8

/-- A new directory in one that is there. -/
def makeDirectory (fs : FileSystem) (path : String) : Except FileError FileSystem := do
  let route ← Route.of path
  let directory ← fs.walk route.start route.directories
  match route.last with
  | none | some "." | some ".." => .error .alreadyExists
  | some name =>
    checkName name
    match fs.at? (directory ++ [name]) with
    | some _ => .error .alreadyExists
    | none => .ok (fs.setEntry (directory ++ [name]) .directory)

theorem at?_setEntry_self (fs : FileSystem) (place : Place) (entry : FileEntry)
    (h : fs.at? place ≠ some .directory) : (fs.setEntry place entry).at? place = some entry := by
  have free : ¬(place.all (· == "..") || place == ["/"]) = true := by
    intro always
    exact h (by rw [at?, if_pos always])
  rw [at?, if_neg free]
  simp [setEntry]

theorem at?_setEntry_other (fs : FileSystem) {place other : Place} (entry : FileEntry)
    (h : other ≠ place) : (fs.setEntry place entry).at? other = fs.at? other := by
  have apart : (place == other) = false := by simpa using h.symm
  unfold at?
  split
  · rfl
  · simp only [setEntry, List.find?_cons, apart, List.find?_filter]
    congr 2
    funext e
    by_cases same : e.1 = other
    · simp [same, h]
    · simp [same]

/-- A walk goes through directories, and a place that was none is not on its way. -/
theorem walk_setEntry (fs : FileSystem) {place : Place} (entry : FileEntry)
    (free : fs.at? place ≠ some .directory) (start : Place) (names : List String) {goal : Place}
    (h : fs.walk start names = .ok goal) : (fs.setEntry place entry).walk start names = .ok goal := by
  fun_induction walk fs start names with
  | case1 => exact h
  | case2 start names ih => rw [walk]; exact ih h
  | case3 start names ih => rw [walk]; exact ih h
  | case4 start name names notDot notParent ih =>
    rw [walk.eq_4 _ _ _ _ notDot notParent]
    cases named : checkName name with
    | error e => rw [named] at h; cases h
    | ok =>
      rw [named] at h
      cases found : fs.at? (start ++ [name]) with
      | none => simp only [found] at h; cases h
      | some e =>
        cases e with
        | file content => simp only [found] at h; cases h
        | directory =>
          simp only [found] at h
          have differs : start ++ [name] ≠ place := by
            intro same
            exact free (same ▸ found)
          have kept := (at?_setEntry_other fs entry differs).trans found
          simp only [kept]
          exact ih h

/-- What a path names as a new file, in the terms of its route. -/
theorem creationPlace_eq_ok {fs : FileSystem} {path : String} {place : Place}
    (h : fs.creationPlace path = .ok place) :
    ∃ route directory name, Route.of path = .ok route ∧
      fs.walk route.start route.directories = .ok directory ∧ route.last = some name ∧
      name ≠ "." ∧ name ≠ ".." ∧ route.endsInSlash = false ∧ checkName name = .ok () ∧
      place = directory ++ [name] ∧ fs.at? place ≠ some .directory := by
  unfold creationPlace at h
  cases hr : Route.of path with
  | error e => rw [hr] at h; cases h
  | ok route =>
    simp only [hr, bind, Except.bind] at h
    cases hw : fs.walk route.start route.directories with
    | error e => simp only [hw] at h; cases h
    | ok directory =>
      simp only [hw] at h
      split at h
      · cases h
      · cases h
      · cases h
      next name notDot notParent last =>
        cases slash : route.endsInSlash with
        | true => simp [slash] at h
        | false =>
          cases named : checkName name with
          | error e => simp [slash, named] at h
          | ok =>
            simp only [slash, named, Bool.false_eq_true, if_false] at h
            split at h
            · cases h
            next free =>
              cases h
              refine ⟨route, directory, name, rfl, hw, last, ?_, ?_, slash, named, rfl, free⟩
              · rintro rfl; exact notDot rfl
              · rintro rfl; exact notParent rfl

theorem read_write {fs after : FileSystem} {path : String} {content : ByteArray}
    (h : fs.write path content = .ok after) : after.read path = .ok content := by
  unfold write at h
  cases hp : fs.creationPlace path with
  | error e => rw [hp] at h; cases h
  | ok place =>
    rw [hp] at h
    cases h
    obtain ⟨route, directory, name, hr, hw, last, notDot, notParent, slash, named, rfl, free⟩ :=
      creationPlace_eq_ok hp
    have walked := walk_setEntry fs (.file content) free _ _ hw
    have found := at?_setEntry_self fs _ (.file content) free
    simp [read, resolve, hr, walked, bind, Except.bind, last, named, found, slash]

end FileSystem
end CiPipeline
