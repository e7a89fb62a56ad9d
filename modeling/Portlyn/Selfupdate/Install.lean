import Portlyn.Go.Strings

/-! # Replacing the executable (`internal/selfupdate/install.go`)

`AtomicSwap` is written with what follows each file operation, where it succeeds and where it fails.
One operation can fail, or the process can end at it; a copy that is not finished leaves the bytes
written so far. -/
namespace Portlyn.Selfupdate
open Go
set_option autoImplicit false

structure File where
  content : GoString
  mode : ℕ
deriving DecidableEq

abbrev Files := GoString → Option File

inductive Operation
  | createTemp | copy | close | chmod | stat | backup | rename | restore | chmodBackup | remove
deriving DecidableEq

inductive Fault
  | fails (op : Operation)
  | crash (op : Operation)

inductive Swap
  | crashed (files : Files)
  | returned (files : Files) (err : Option GoString)

def Swap.files : Swap → Files
  | .crashed files | .returned files _ => files

def rename (source target : GoString) (files : Files) : Files :=
  Function.update (Function.update files target (files source)) source none

def chmod (path : GoString) (mode : ℕ) (files : Files) : Files :=
  Function.update files path ((files path).map fun file => { file with mode := mode })

/-- An operation and its two continuations; `torn` is what it leaves if it does not complete. -/
def perform (fault : Option Fault) (op : Operation) (effect torn : Files → Files)
    (failed ok : Files → Swap) (files : Files) : Swap :=
  match fault with
  | some (.fails bad) => if bad = op then failed (torn files) else ok (effect files)
  | some (.crash bad) => if bad = op then .crashed (torn files) else ok (effect files)
  | none => ok (effect files)

section
variable (fault : Option Fault) (written : ℕ) (currentPath random payload : GoString) (mode : ℕ)

def tempPath : GoString := currentPath ++ str ".new-" ++ random
def backupPath : GoString := currentPath ++ str ".bak"

/-- The end of the function: the deferred removal, whose error is ignored. -/
def finish (err : Option GoString) : Files → Swap :=
  perform fault .remove (Function.update · (tempPath currentPath random) none) id (.returned · err) (.returned · err)

def install : Files → Swap :=
  perform fault .rename (rename (tempPath currentPath random) currentPath) id
    (perform fault .restore (rename (backupPath currentPath) currentPath) id
      (finish fault currentPath random (some (str "atomic rename")))
      (finish fault currentPath random (some (str "atomic rename"))))
    (perform fault .chmodBackup (chmod (backupPath currentPath) 0o600) id (finish fault currentPath random none)
      (finish fault currentPath random none))

def atomicSwap : Files → Swap :=
  let tmpPath := tempPath currentPath random
  let abort := fun message => finish fault currentPath random (some (str message))
  perform fault .createTemp (Function.update · tmpPath (some ⟨[], 0o600⟩)) id
    (.returned · (some (str "create temp"))) <|
  perform fault .copy (Function.update · tmpPath (some ⟨payload, 0o600⟩))
  (Function.update · tmpPath (some ⟨payload.take written, 0o600⟩))
    (abort "write new binary") <|
  perform fault .close id id (abort "close new binary") <|
  perform fault .chmod (chmod tmpPath mode) id (abort "chmod new binary") <|
  perform fault .stat id id (install fault currentPath random) fun files =>
  if (files currentPath).isSome then
    perform fault .backup (rename currentPath (backupPath currentPath)) id (abort "backup current")
    (install fault currentPath random) files
  else install fault currentPath random files

end

/-- The old or the new executable is at the path, and the old one after an error. -/
def Swap.Safe (currentPath : GoString) (old new : File) : Swap → Prop
  | .returned files (some _) => files currentPath = some old
  | swap => swap.files currentPath = some old ∨ swap.files currentPath = some new

/-! ## What a fault leaves -/

/-- What holds of the result of an operation: if it completes, if it is the one that fails, and if
the process ends at it. -/
theorem perform_rule {P : Swap → Prop} {fault : Option Fault} {op : Operation}
    {effect torn : Files → Files} {failed ok : Files → Swap} {files : Files}
    (hok : P (ok (effect files))) (hfails : fault = some (.fails op) → P (failed (torn files)))
    (hcrash : fault = some (.crash op) → P (.crashed (torn files))) :
    P (perform fault op effect torn failed ok files) := by
  fun_cases perform
  case case1 => exact hfails rfl
  case case3 => exact hcrash rfl
  all_goals exact hok

section Paths
variable {fault : Option Fault} {currentPath random : GoString} {files : Files} {old new : File}

theorem currentPath_ne_tempPath : currentPath ≠ tempPath currentPath random := by
  have hnew : str ".new-" = [46, 110, 101, 119, 45] := by decide +kernel
  simp [tempPath, hnew]

theorem currentPath_ne_backupPath : currentPath ≠ backupPath currentPath := by
  have hbak : str ".bak" = [46, 98, 97, 107] := by decide +kernel
  simp [backupPath, hbak]

theorem backupPath_ne_tempPath : backupPath currentPath ≠ tempPath currentPath random := by
  have hnew : str ".new-" = [46, 110, 101, 119, 45] := by decide +kernel
  have hbak : str ".bak" = [46, 98, 97, 107] := by decide +kernel
  simp [backupPath, tempPath, hnew, hbak]

/-- The deferred removal is of another file. -/
theorem finish_safe {err : Option GoString}
    (h : files currentPath = some old ∨ err = none ∧ files currentPath = some new) :
    (finish fault currentPath random err files).Safe currentPath old new := by
  have hreturned : ∀ files : Files, (files currentPath = some old ∨ err = none ∧ files currentPath = some new) →
      (Swap.returned files err).Safe currentPath old new := by
    rintro files (hold | ⟨rfl, hnew⟩)
    · cases err with
      | none => exact Or.inl hold
      | some message => exact hold
    · exact Or.inr hnew
  refine perform_rule ?ok (fun _ => hreturned files h) (fun _ => h.imp id And.right)
  case ok =>
    refine hreturned _ ?_
    rwa [Function.update_of_ne currentPath_ne_tempPath]

/-- An operation before the executable is moved: its failure is reported with the executable in its
place. -/
theorem perform_before {op : Operation} {effect torn : Files → Files} {ok : Files → Swap}
    {message : GoString} (htorn : torn files currentPath = some old)
    (hok : (ok (effect files)).Safe currentPath old new) :
    (perform fault op effect torn (finish fault currentPath random (some message)) ok files).Safe
      currentPath old new :=
  perform_rule hok (fun _ => finish_safe (Or.inl htorn)) fun _ => Or.inl htorn

theorem install_safe (hfault : fault ≠ some (.crash .rename))
    (hbackup : fault = some (.fails .rename) → files (backupPath currentPath) = some old)
    (hnew : files (tempPath currentPath random) = some new) :
    (install fault currentPath random files).Safe currentPath old new := by
  refine perform_rule ?renamed (fun hfails => ?failed) (fun hcrash => absurd hcrash hfault)
  case renamed =>
    have hplaced : rename (tempPath currentPath random) currentPath files currentPath = some new := by
      rw [rename, Function.update_of_ne currentPath_ne_tempPath, Function.update_self, hnew]
    refine perform_rule (finish_safe (Or.inr ⟨rfl, ?_⟩)) (fun _ => finish_safe (Or.inr ⟨rfl, hplaced⟩))
      fun _ => Or.inr hplaced
    rwa [chmod, Function.update_of_ne currentPath_ne_backupPath]
  case failed =>
    -- one operation fails, so the executable comes back from its backup
    subst hfails
    refine perform_rule (finish_safe (Or.inl ?_)) nofun nofun
    rw [rename, Function.update_of_ne currentPath_ne_backupPath, Function.update_self, id, hbackup rfl]

theorem install_crash (hgone : files currentPath = none) :
    ¬ (install (some (.crash .rename)) currentPath random files).Safe currentPath old new := by
  simp [install, perform, Swap.Safe, Swap.files, hgone]

end Paths

/-- The swap is safe unless the process ends after the executable was moved away and before the new
one is in its place. -/
theorem atomicSwap_safe_iff (fault : Option Fault) (written mode : ℕ) (currentPath random payload : GoString)
    (files : Files) (old : File) (hold : files currentPath = some old) :
    (atomicSwap fault written currentPath random payload mode files).Safe currentPath old ⟨payload, mode⟩ ↔
      fault ≠ some (.crash .rename) := by
  set tmpPath := tempPath currentPath random
  have hother : ∀ (files : Files) file, Function.update files tmpPath file currentPath = files currentPath :=
    fun files file => Function.update_of_ne currentPath_ne_tempPath _ _
  -- the files with the new executable at its temporary name
  set ready := chmod tmpPath mode (Function.update (Function.update files tmpPath (some ⟨[], 0o600⟩)) tmpPath
    (some ⟨payload, 0o600⟩)) with hready
  have hcurrent : ready currentPath = some old := by rw [hready, chmod, hother, hother, hother, hold]
  have htemp : ready tmpPath = some ⟨payload, mode⟩ := by simp [hready, chmod]
  have htempMoved : rename currentPath (backupPath currentPath) ready tmpPath = some ⟨payload, mode⟩ := by
    rw [rename, Function.update_of_ne currentPath_ne_tempPath.symm,
      Function.update_of_ne backupPath_ne_tempPath.symm, htemp]
  constructor
  · rintro hsafe rfl
    have hgone : rename currentPath (backupPath currentPath) ready currentPath = none := by
      rw [rename, Function.update_self]
    have hmoved : (ready currentPath).isSome = true := by rw [hcurrent, Option.isSome_some]
    simp only [atomicSwap, perform, reduceCtorEq, if_false, id_eq] at hsafe
    rw [← hready, if_pos hmoved] at hsafe
    exact install_crash hgone hsafe
  · intro hfault
    unfold atomicSwap
    refine perform_rule (P := Swap.Safe currentPath old ⟨payload, mode⟩) ?created (fun _ => hold)
      fun _ => Or.inl hold
    refine perform_before ?torn ?_
    case torn => rw [hother, hother, hold]
    refine perform_before ((hother _ _).trans ((hother _ _).trans hold)) ?_
    refine perform_before ((hother _ _).trans ((hother _ _).trans hold)) ?_
    refine perform_rule (P := Swap.Safe currentPath old ⟨payload, mode⟩) ?found (fun hstat => ?unseen)
      fun _ => Or.inl hcurrent
    case unseen => exact install_safe hfault (fun hfails => by simp [hstat] at hfails) htemp
    case found =>
      simp only [id_eq]
      rw [← hready, if_pos (by rw [hcurrent, Option.isSome_some])]
      refine perform_before hcurrent (install_safe hfault (fun _ => ?_) htempMoved)
      rw [rename, Function.update_of_ne currentPath_ne_backupPath.symm, Function.update_self, hcurrent]

/-- The second rename fails: the old executable is back at its path, over a stale backup too. -/
theorem atomicSwap_safe_restored : ∃ files : Files, files [112] = some ⟨[1], 0o755⟩ ∧
    (files (backupPath [112])).isSome ∧
    (atomicSwap (some (.fails .rename)) 0 [112] [49] [2] 0o755 files).Safe [112] ⟨[1], 0o755⟩ ⟨[2], 0o755⟩ :=
  ⟨fun _ => some ⟨[1], 0o755⟩, rfl, rfl,
    (atomicSwap_safe_iff (some (.fails .rename)) 0 0o755 [112] [49] [2] _ _ rfl).mpr nofun⟩

/-- A crash between the two renames: nothing is at the path of the executable. -/
theorem atomicSwap_crash_leaves_nothing : ∃ files : Files, files [112] = some ⟨[1], 0o755⟩ ∧
    (atomicSwap (some (.crash .rename)) 0 [112] [49] [2] 0o755 files).files [112] = none :=
  ⟨fun _ => some ⟨[1], 0o755⟩, rfl, by decide +kernel⟩

end Portlyn.Selfupdate
