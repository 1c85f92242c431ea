import Mathlib.Data.List.Basic
import Mathlib.Logic.Function.Basic

/-! Processes over a directory of files with advisory locks: a lock belongs to a process's descriptor of a file, and a path
that is removed is made anew by the next open. -/

namespace Dekit

namespace Flock

/-- What a process does next: an operation on the directory or on a lock, and where it goes on. Files are numbers. -/
inductive Instr (Path Pc : Type)
  | opens (path : Path) (next : ℕ → Pc)
  | finds (path : Path) (next : ℕ → Pc) (missing : Pc)
  | tries (file : ℕ) (got denied : Pc)
  | waits (file : ℕ) (got : Pc)
  | checks (path : Path) (file : ℕ) (same differs : Pc)
  | removes (path : Path) (next : Pc)
  | writes (path : Path) (next : Pc)
  | jumps (next : Pc → Prop)

/-- Nothing is held but what was held and the lock just got, and nothing is known but what was known and the file just opened. -/
def Instr.Keeps {Path Pc : Type} (held known : Pc → List ℕ) (pc : Pc) : Instr Path Pc → Prop
  | .opens _ next => ∀ file, held (next file) ⊆ held pc ∧ known (next file) ⊆ file :: known pc
  | .finds _ next missing => (∀ file, held (next file) ⊆ held pc ∧ known (next file) ⊆ file :: known pc) ∧
      held missing ⊆ held pc ∧ known missing ⊆ known pc
  | .tries file got denied => (held got ⊆ file :: held pc ∧ known got ⊆ known pc) ∧
      held denied ⊆ held pc ∧ known denied ⊆ known pc
  | .waits file got => held got ⊆ file :: held pc ∧ known got ⊆ known pc
  | .checks _ _ same differs =>
    (held same ⊆ held pc ∧ known same ⊆ known pc) ∧ held differs ⊆ held pc ∧ known differs ⊆ known pc
  | .removes _ next | .writes _ next => held next ⊆ held pc ∧ known next ⊆ known pc
  | .jumps next => ∀ pc', next pc' → held pc' ⊆ held pc ∧ known pc' ⊆ known pc

/-- What the processes run: the operation at each place, the files locked there and those that descriptors are of. -/
structure Program (Path Pc : Type) where
  instr : Pc → Instr Path Pc
  idle : Pc
  held : Pc → List ℕ
  known : Pc → List ℕ
  idle_known : known idle = []
  held_known : ∀ pc, held pc ⊆ known pc
  keeps : ∀ pc, (instr pc).Keeps held known pc

/-- The files that the paths name, how many were made, and where each process is. -/
structure World (Path Pc : Type) where
  names : Path → Option ℕ
  made : ℕ
  pc : ℕ → Pc

variable {Path Pc : Type} [DecidableEq Path]

namespace World

variable (s : World Path Pc)

def goto (t : ℕ) (pc : Pc) : World Path Pc := { s with pc := Function.update s.pc t pc }

def link (path : Path) : World Path Pc :=
  { s with names := Function.update s.names path (some s.made), made := s.made + 1 }

def unlink (path : Path) : World Path Pc := { s with names := Function.update s.names path none }

end World

variable (P : Program Path Pc)

def Free (s : World Path Pc) (file : ℕ) : Prop := ∀ t, file ∉ P.held (s.pc t)

/-- One process takes a step, or dies, which closes its descriptors. -/
inductive Step (s : World Path Pc) (t : ℕ) : World Path Pc → Prop
  | opened {path next file} : P.instr (s.pc t) = .opens path next → s.names path = some file →
    Step s t (s.goto t (next file))
  | made {path next} : P.instr (s.pc t) = .opens path next → s.names path = none →
      Step s t ((s.link path).goto t (next s.made))
  | found {path next missing file} : P.instr (s.pc t) = .finds path next missing → s.names path = some file →
      Step s t (s.goto t (next file))
  | missing {path next missing} : P.instr (s.pc t) = .finds path next missing → s.names path = none →
      Step s t (s.goto t missing)
  | got {file got denied} : P.instr (s.pc t) = .tries file got denied → Free P s file → Step s t (s.goto t got)
  | denied {file got denied} : P.instr (s.pc t) = .tries file got denied → ¬ Free P s file → Step s t (s.goto t denied)
  | waited {file got} : P.instr (s.pc t) = .waits file got → Free P s file → Step s t (s.goto t got)
  | same {path file same differs} : P.instr (s.pc t) = .checks path file same differs → s.names path = some file →
      Step s t (s.goto t same)
  | differs {path file same differs} : P.instr (s.pc t) = .checks path file same differs → s.names path ≠ some file →
      Step s t (s.goto t differs)
  | removed {path next} : P.instr (s.pc t) = .removes path next → Step s t ((s.unlink path).goto t next)
  | written {path next} : P.instr (s.pc t) = .writes path next → Step s t ((s.link path).goto t next)
  | jumped {next} (pc : Pc) : P.instr (s.pc t) = .jumps next → next pc → Step s t (s.goto t pc)
  | died : Step s t (s.goto t P.idle)

/-- Every process is idle; the directory may have files in it. -/
structure Start (s : World Path Pc) : Prop where
  idle : ∀ t, s.pc t = P.idle
  names : ∀ path file, s.names path = some file → file < s.made

/-- The states that steps lead to which are all allowed. -/
inductive Reached (allowed : World Path Pc → ℕ → World Path Pc → Prop) : World Path Pc → Prop
  | start {s : World Path Pc} : Start P s → Reached allowed s
  | step {s s' : World Path Pc} {t : ℕ} : Reached allowed s → allowed s t s' → Step P s t s' → Reached allowed s'

/-- Each file was made, and no two processes hold one lock. -/
structure Sound (s : World Path Pc) : Prop where
  named : ∀ {path file}, s.names path = some file → file < s.made
  known : ∀ {t file}, file ∈ P.known (s.pc t) → file < s.made
  alone : ∀ {t t' file}, file ∈ P.held (s.pc t) → file ∈ P.held (s.pc t') → t = t'

variable {P} {s s' : World Path Pc} {t : ℕ}

omit [DecidableEq Path] in
theorem Sound.goto (h : Sound P s) {pc : Pc} (hknown : ∀ file ∈ P.known pc, file < s.made)
    (hheld : ∀ file ∈ P.held pc, file ∈ P.held (s.pc t) ∨ Free P s file) : Sound P (s.goto t pc) := by
  refine ⟨h.named, fun {u file} hmem => ?_, fun {u u' file} hmem hmem' => ?_⟩
  · unfold World.goto at hmem
    simp only [Function.update_apply] at hmem
    split_ifs at hmem
    · exact hknown file hmem
    · exact h.known hmem
  · unfold World.goto at hmem hmem'
    simp only [Function.update_apply] at hmem hmem'
    split_ifs at hmem hmem' with hu hu' hu'
    · rw [hu, hu']
    · rcases hheld file hmem with hold | hfree
      · exact hu.trans (h.alone hold hmem')
      · exact absurd hmem' (hfree u')
    · rcases hheld file hmem' with hold | hfree
      · exact (h.alone hmem hold).trans hu'.symm
      · exact absurd hmem (hfree u)
    · exact h.alone hmem hmem'

theorem Sound.link (h : Sound P s) (path : Path) : Sound P (s.link path) := by
  refine ⟨fun {path' file} hname => ?_, fun hmem => Nat.lt_succ_of_lt (h.known hmem), h.alone⟩
  unfold World.link at hname ⊢
  simp only [Function.update_apply] at hname
  split_ifs at hname
  · obtain rfl := Option.some.inj hname
    exact Nat.lt_succ_self _
  · exact Nat.lt_succ_of_lt (h.named hname)

theorem Sound.unlink (h : Sound P s) (path : Path) : Sound P (s.unlink path) := by
  refine ⟨fun {path' file} hname => ?_, h.known, h.alone⟩
  unfold World.unlink at hname
  simp only [Function.update_apply] at hname
  split_ifs at hname
  exact h.named hname

omit [DecidableEq Path] in
theorem Sound.keep (h : Sound P s) {pc : Pc} (hkeep : P.held pc ⊆ P.held (s.pc t) ∧ P.known pc ⊆ P.known (s.pc t)) :
    Sound P (s.goto t pc) :=
  h.goto (fun _ hmem => h.known (hkeep.2 hmem)) fun _ hmem => .inl (hkeep.1 hmem)

omit [DecidableEq Path] in
theorem Sound.open (h : Sound P s) {pc : Pc} {file : ℕ} (hfile : file < s.made)
    (hkeep : P.held pc ⊆ P.held (s.pc t) ∧ P.known pc ⊆ file :: P.known (s.pc t)) : Sound P (s.goto t pc) := by
  refine h.goto (fun file' hmem => ?_) fun _ hmem => .inl (hkeep.1 hmem)
  rcases List.mem_cons.mp (hkeep.2 hmem) with rfl | hmem
  · exact hfile
  · exact h.known hmem

omit [DecidableEq Path] in
theorem Sound.lock (h : Sound P s) {pc : Pc} {file : ℕ} (hfree : Free P s file)
    (hkeep : P.held pc ⊆ file :: P.held (s.pc t) ∧ P.known pc ⊆ P.known (s.pc t)) : Sound P (s.goto t pc) := by
  refine h.goto (fun _ hmem => h.known (hkeep.2 hmem)) fun file' hmem => ?_
  rcases List.mem_cons.mp (hkeep.1 hmem) with rfl | hmem
  · exact .inr hfree
  · exact .inl hmem

theorem Sound.step (h : Sound P s) (hs : Step P s t s') : Sound P s' := by
  have hkeeps := P.keeps (s.pc t)
  cases hs with
  | opened hi hname =>
    rw [hi] at hkeeps
    exact h.open (h.named hname) (hkeeps _)
  | made hi hname =>
    rw [hi] at hkeeps
    exact (h.link _).open (Nat.lt_succ_self _) (hkeeps _)
  | found hi hname =>
    rw [hi] at hkeeps
    exact h.open (h.named hname) (hkeeps.1 _)
  | missing hi _ =>
    rw [hi] at hkeeps
    exact h.keep hkeeps.2
  | got hi hfree =>
    rw [hi] at hkeeps
    exact h.lock hfree hkeeps.1
  | denied hi _ =>
    rw [hi] at hkeeps
    exact h.keep hkeeps.2
  | waited hi hfree =>
    rw [hi] at hkeeps
    exact h.lock hfree hkeeps
  | same hi _ =>
    rw [hi] at hkeeps
    exact h.keep hkeeps.1
  | differs hi _ =>
    rw [hi] at hkeeps
    exact h.keep hkeeps.2
  | removed hi =>
    rw [hi] at hkeeps
    exact (h.unlink _).keep hkeeps
  | written hi =>
    rw [hi] at hkeeps
    exact (h.link _).keep hkeeps
  | jumped pc hi hnext =>
    rw [hi] at hkeeps
    exact h.keep (hkeeps pc hnext)
  | died =>
    have hheld := P.held_known P.idle
    rw [P.idle_known] at hheld
    refine h.goto (fun file hmem => ?_) fun file hmem => absurd (hheld hmem) List.not_mem_nil
    rw [P.idle_known] at hmem
    exact absurd hmem List.not_mem_nil

omit [DecidableEq Path] in
theorem Start.sound (h : Start P s) : Sound P s := by
  have hnone {u file : ℕ} : file ∉ P.known (s.pc u) := by
    rw [h.idle u, P.idle_known]
    exact List.not_mem_nil
  exact ⟨fun hname => h.names _ _ hname, fun hmem => absurd hmem hnone,
    fun hmem _ => absurd (P.held_known _ hmem) hnone⟩

theorem Reached.mono {allowed allowed' : World Path Pc → ℕ → World Path Pc → Prop}
    (hallowed : ∀ s t s', allowed s t s' → allowed' s t s') (h : Reached P allowed s) : Reached P allowed' s := by
  induction h with
  | start hs => exact .start hs
  | step _ hok hs ih => exact .step ih (hallowed _ _ _ hok) hs

/-- What an operation leads to: where the process goes on, and the paths. -/
def Instr.Leads (P : Program Path Pc) (s : World Path Pc) (pc' : Pc) (names' : Path → Option ℕ) : Instr Path Pc → Prop
  | .opens path next => (∃ file, s.names path = some file ∧ pc' = next file ∧ names' = s.names) ∨
      s.names path = none ∧ pc' = next s.made ∧ (∀ p, names' p = if p = path then some s.made else s.names p)
  | .finds path next missing =>
    names' = s.names ∧ ((∃ file, s.names path = some file ∧ pc' = next file) ∨ s.names path = none ∧ pc' = missing)
  | .tries file got denied => names' = s.names ∧ (pc' = got ∧ Free P s file ∨ pc' = denied ∧ ¬ Free P s file)
  | .waits file got => names' = s.names ∧ pc' = got ∧ Free P s file
  | .checks path file same differs => names' = s.names ∧ (pc' = same ∧ s.names path = some file ∨ pc' = differs)
  | .removes path next => (∀ p, names' p = if p = path then none else s.names p) ∧ pc' = next
  | .writes path next => (∀ p, names' p = if p = path then some s.made else s.names p) ∧ pc' = next
  | .jumps next => names' = s.names ∧ next pc'

theorem Step.leads (hs : Step P s t s') : (s'.pc t = P.idle ∧ s'.names = s.names) ∨
    (P.instr (s.pc t)).Leads P s (s'.pc t) s'.names := by
  have hpc (s : World Path Pc) (pc : Pc) : (s.goto t pc).pc t = pc := Function.update_self ..
  cases hs with
  | died => exact .inl ⟨hpc _ _, rfl⟩
  | opened hi hname => rw [hi, hpc]; exact .inr (.inl ⟨_, hname, rfl, rfl⟩)
  | made hi hname => rw [hi, hpc]; exact .inr (.inr ⟨hname, rfl, fun _ => Function.update_apply ..⟩)
  | found hi hname => rw [hi, hpc]; exact .inr ⟨rfl, .inl ⟨_, hname, rfl⟩⟩
  | missing hi hname => rw [hi, hpc]; exact .inr ⟨rfl, .inr ⟨hname, rfl⟩⟩
  | got hi hfree => rw [hi, hpc]; exact .inr ⟨rfl, .inl ⟨rfl, hfree⟩⟩
  | denied hi hfree => rw [hi, hpc]; exact .inr ⟨rfl, .inr ⟨rfl, hfree⟩⟩
  | waited hi hfree => rw [hi, hpc]; exact .inr ⟨rfl, rfl, hfree⟩
  | same hi hname => rw [hi, hpc]; exact .inr ⟨rfl, .inl ⟨rfl, hname⟩⟩
  | differs hi _ => rw [hi, hpc]; exact .inr ⟨rfl, .inr rfl⟩
  | removed hi => rw [hi, hpc]; exact .inr ⟨fun _ => Function.update_apply .., rfl⟩
  | written hi => rw [hi, hpc]; exact .inr ⟨fun _ => Function.update_apply .., rfl⟩
  | jumped pc hi hnext => rw [hi, hpc]; exact .inr ⟨rfl, hnext⟩

theorem Step.names (hs : Step P s t s') : s'.names = s.names ∨
    (∃ path, s'.names = Function.update s.names path (some s.made) ∧
      ((∃ next, P.instr (s.pc t) = .opens path next ∧ s.names path = none) ∨ ∃ next, P.instr (s.pc t) = .writes path next)) ∨
    ∃ path next, P.instr (s.pc t) = .removes path next ∧ s'.names = Function.update s.names path none := by
  cases hs with
  | made hi hname => exact .inr (.inl ⟨_, rfl, .inl ⟨_, hi, hname⟩⟩)
  | written hi => exact .inr (.inl ⟨_, rfl, .inr ⟨_, hi⟩⟩)
  | removed hi => exact .inr (.inr ⟨_, _, hi, rfl⟩)
  | opened | found | missing | got | denied | waited | same | differs | jumped | died => exact .inl rfl

theorem Step.pc_of_ne (hs : Step P s t s') {u : ℕ} (hu : u ≠ t) : s'.pc u = s.pc u := by
  cases hs <;> exact Function.update_of_ne hu ..

end Flock

end Dekit
