import Dekit.Lib.Flock

/-! `lockfile.rs`: one runner for each identity, by two lock files in the runtime directory. -/

namespace Dekit

namespace Lockfile

open Flock

inductive Path
  | lock
  | live
  | record
  | socket
  | error
deriving DecidableEq

/-- Where a process is in `lock_runner_paths`, with a guard, in its `drop`, in `cleanup_paths` or in `is_runner_alive`: with
the files of its descriptors and the turns left of the loop. -/
inductive Pc
  | idle
  | openLock (left : ℕ)
  | flockLock (left lock : ℕ)
  | openLive (left lock : ℕ)
  | flockLive (left lock live : ℕ)
  | checkLock (left lock live : ℕ)
  | checkLive (left lock live : ℕ)
  | closeLive (left lock live : ℕ)
  | closeLock (left lock : ℕ)
  | clearRecord (lock live : ℕ)
  | clearSocket (lock live : ℕ)
  | clearError (lock live : ℕ)
  | guarding (lock live : ℕ)
  | publishRecord (lock live : ℕ)
  | publishSocket (lock live : ℕ)
  | publishError (lock live : ℕ)
  | removeError (lock live : ℕ)
  | dropSocket (lock live : ℕ)
  | dropRecord (lock live : ℕ)
  | dropLive (lock live : ℕ)
  | dropLock (lock live : ℕ)
  | dropped (lock live : ℕ)
  | closing (live : ℕ)
  | cleanOpen (left : ℕ)
  | cleanFlock (left live : ℕ)
  | cleanCheck (left live : ℕ)
  | cleanAgain (left live : ℕ)
  | cleanSocket (live : ℕ)
  | cleanRecord (live : ℕ)
  | cleanError (live : ℕ)
  | cleanLock (live : ℕ)
  | cleanLive (live : ℕ)
  | probeOpen
  | probeMissing
  | probeFlock (live : ℕ)
  | probed (alive : Bool) (live : ℕ)
deriving DecidableEq

namespace Pc

def instr : Pc → Instr Path Pc
  | idle => .jumps fun pc => pc = openLock 8 ∨ pc = cleanOpen 8 ∨ pc = probeOpen
  -- lock_runner_paths
  | openLock 0 => .jumps (· = idle)
  | openLock (left + 1) => .opens .lock (flockLock left)
  | flockLock left lock => .tries lock (openLive left lock) idle
  | openLive left lock => .opens .live (flockLive left lock)
  | flockLive left lock live => .waits live (checkLock left lock live)
  | checkLock left lock live => .checks .lock lock (checkLive left lock live) (closeLive left lock live)
  | checkLive left lock live => .checks .live live (clearRecord lock live) (closeLive left lock live)
  | closeLive left lock _ => .jumps (· = closeLock left lock)
  | closeLock left _ => .jumps (· = openLock left)
  | clearRecord lock live => .removes .record (clearSocket lock live)
  | clearSocket lock live => .removes .socket (clearError lock live)
  | clearError lock live => .removes .error (guarding lock live)
  -- The runner, until its guard is dropped.
  | guarding lock live => .jumps fun pc => pc = publishRecord lock live ∨ pc = publishSocket lock live ∨
      pc = publishError lock live ∨ pc = removeError lock live ∨ pc = dropSocket lock live
  | publishRecord lock live => .writes .record (guarding lock live)
  | publishSocket lock live => .writes .socket (guarding lock live)
  | publishError lock live => .writes .error (guarding lock live)
  | removeError lock live => .removes .error (guarding lock live)
  -- Drop for LockFileGuard
  | dropSocket lock live => .removes .socket (dropRecord lock live)
  | dropRecord lock live => .removes .record (dropLive lock live)
  | dropLive lock live => .removes .live (dropLock lock live)
  | dropLock lock live => .removes .lock (dropped lock live)
  | dropped _ live => .jumps (· = closing live)
  | closing _ => .jumps (· = idle)
  -- cleanup_paths
  | cleanOpen 0 => .jumps (· = idle)
  | cleanOpen (left + 1) => .opens .live (cleanFlock left)
  | cleanFlock left live => .tries live (cleanCheck left live) idle
  | cleanCheck left live => .checks .live live (cleanSocket live) (cleanAgain left live)
  | cleanAgain left _ => .jumps (· = cleanOpen left)
  | cleanSocket live => .removes .socket (cleanRecord live)
  | cleanRecord live => .removes .record (cleanError live)
  | cleanError live => .removes .error (cleanLock live)
  | cleanLock live => .removes .lock (cleanLive live)
  | cleanLive live => .removes .live (closing live)
  -- is_runner_alive
  | probeOpen => .finds .live probeFlock probeMissing
  | probeMissing => .jumps (· = idle)
  | probeFlock live => .tries live (probed false live) (probed true live)
  | probed _ _ => .jumps (· = idle)

def held : Pc → List ℕ
  | openLive _ lock | flockLive _ lock _ | closeLock _ lock => [lock]
  | checkLock _ lock live | checkLive _ lock live | closeLive _ lock live
  | clearRecord lock live | clearSocket lock live | clearError lock live
  | guarding lock live | publishRecord lock live | publishSocket lock live | publishError lock live
  | removeError lock live
  | dropSocket lock live | dropRecord lock live | dropLive lock live | dropLock lock live | dropped lock live =>
    [lock, live]
  | closing live | cleanCheck _ live | cleanAgain _ live
  | cleanSocket live | cleanRecord live | cleanError live | cleanLock live | cleanLive live | probed false live =>
    [live]
  | _ => []

/-- The files that a process has descriptors of. -/
def known : Pc → List ℕ
  | flockLock _ lock => [lock]
  | flockLive _ lock live => [lock, live]
  | cleanFlock _ live | probeFlock live | probed true live => [live]
  | pc => pc.held

end Pc

/-- What the processes of a runtime directory run. -/
def program : Program Path Pc where
  instr := Pc.instr
  idle := .idle
  held := Pc.held
  known := Pc.known
  idle_known := rfl
  held_known := by
    intro pc
    cases pc with
    | probed alive live => cases alive <;> simp [Pc.held, Pc.known]
    | _ => simp [Pc.held, Pc.known]
  keeps := by
    intro pc
    cases pc with
    | openLock left => cases left <;> simp [Pc.instr, Instr.Keeps, Pc.held, Pc.known]
    | cleanOpen left => cases left <;> simp [Pc.instr, Instr.Keeps, Pc.held, Pc.known]
    | _ => simp [Pc.instr, Instr.Keeps, Pc.held, Pc.known]

namespace Pc

/-- The lock files of a guard whose drop has not begun. -/
def guard : Pc → Option (ℕ × ℕ)
  | guarding lock live | publishRecord lock live | publishSocket lock live | publishError lock live
  | removeError lock live =>
    some (lock, live)
  | _ => none

/-- The live file of a process that found it in its place with the lock, and has not removed it. -/
def owned : Pc → Option ℕ
  | clearRecord _ live | clearSocket _ live | clearError _ live
  | guarding _ live | publishRecord _ live | publishSocket _ live | publishError _ live | removeError _ live
  | dropSocket _ live | dropRecord _ live | dropLive _ live
  | cleanSocket live | cleanRecord live | cleanError live | cleanLock live | cleanLive live => some live
  | _ => none

/-- The lock files of a starting runner that found its lock file in its place, or of a guard. -/
def confirmed : Pc → Option (ℕ × ℕ)
  | checkLive _ lock live | clearRecord lock live | clearSocket lock live | clearError lock live
  | guarding lock live | publishRecord lock live | publishSocket lock live | publishError lock live
  | removeError lock live =>
    some (lock, live)
  | _ => none

variable {pc : Pc} {lock live : ℕ}

theorem mem_of_owned (h : pc.owned = some live) : live ∈ pc.held := by
  cases pc <;> simp_all [owned, held]

theorem mem_of_confirmed (h : pc.confirmed = some (lock, live)) : lock ∈ pc.held ∧ live ∈ pc.held := by
  cases pc <;> simp_all [confirmed, held]

theorem guard_confirmed (h : pc.guard = some (lock, live)) :
    pc.confirmed = some (lock, live) ∧ pc.owned = some live := by
  cases pc <;> simp_all [guard, confirmed, owned]

theorem removes_owned {path : Path} {next : Pc} (h : pc.instr = .removes path next)
    (hpath : path = .live ∨ path = .record ∨ path = .socket) : ∃ live, pc.owned = some live := by
  cases pc with
  | openLock left => cases left <;> simp [instr] at h
  | cleanOpen left => cases left <;> simp [instr] at h
  | dropLock => rcases hpath with rfl | rfl | rfl <;> simp [instr] at h
  | _ => simp_all [instr, owned]

theorem removes_lock {next : Pc} (h : pc.instr = .removes .lock next) :
    (∃ live, pc.owned = some live) ∨ ∃ lock live, pc = .dropLock lock live := by
  cases pc with
  | openLock left => cases left <;> simp_all [instr]
  | cleanOpen left => cases left <;> simp_all [instr]
  | _ => simp_all [instr, owned]

theorem writes_path {path : Path} {next : Pc} (h : pc.instr = .writes path next) :
    path ≠ .lock ∧ path ≠ .live ∧ ∃ x, pc.guard = some x := by
  cases pc with
  | openLock left => cases left <;> simp_all [instr]
  | cleanOpen left => cases left <;> simp_all [instr]
  | _ => simp_all [instr, guard] <;> exact ⟨by simp [← h.1], by simp [← h.1]⟩

end Pc

abbrev World := Flock.World Path Pc

/-- A runner that ends does not remove the lock file of another one that found it in its place. -/
def Own (s : World) (t : ℕ) (s' : World) : Prop :=
  ∀ lock live, s.pc t = .dropLock lock live → s'.pc t = .dropped lock live → ∀ file, s.names .lock = some file →
    file ≠ lock → ∀ u live', (s.pc u).confirmed ≠ some (file, live')

/-- What holds between the paths and where the processes are. -/
structure Inv (s : World) : Prop where
  sound : Sound program s
  live : ∀ {t live}, (s.pc t).owned = some live → s.names .live = some live
  lock : ∀ {t lock live}, (s.pc t).confirmed = some (lock, live) → s.names .live = some live → s.names .lock = some lock

variable {s s' : World} {t : ℕ}

theorem Inv.alone (h : Inv s) {u live live' : ℕ} (ht : (s.pc t).owned = some live)
    (hu : (s.pc u).owned = some live') : t = u := by
  have hlive := (h.live ht).symm.trans (h.live hu)
  obtain rfl := Option.some.inj hlive
  exact h.sound.alone (Pc.mem_of_owned ht) (Pc.mem_of_owned hu)

/-- The file at the live path stays there for as long as a process owns it that does not move. -/
theorem Inv.live_stays (h : Inv s) (hs : Step program s t s') {u live : ℕ} (hu : u ≠ t)
    (howned : (s.pc u).owned = some live) :
    s'.names .live = some live := by
  have hlive := h.live howned
  rcases hs.names with hsame | ⟨path, hnames, hmade⟩ | ⟨path, next, hi, hnames⟩
  · rw [hsame, hlive]
  · rw [hnames, Function.update_of_ne, hlive]
    rcases hmade with ⟨next, -, hnone⟩ | ⟨next, hi⟩
    · rintro rfl
      rw [hnone] at hlive
      cases hlive
    · exact (Pc.writes_path hi).2.1.symm
  · rw [hnames, Function.update_of_ne, hlive]
    rintro rfl
    obtain ⟨live', howned'⟩ := Pc.removes_owned hi (.inl rfl)
    exact hu (h.alone howned howned')

theorem owned_next (hs : Step program s t s') {live : ℕ} (h : (s'.pc t).owned = some live) :
    s'.names .live = s.names .live ∧ ((s.pc t).owned = some live ∨ s.names .live = some live) := by
  have hleads := hs.leads
  clear hs
  generalize s.pc t = pc, s'.pc t = pc', s'.names = names' at *
  rcases hleads with ⟨rfl, rfl⟩ | hleads
  · cases h
  cases pc with
  | openLock left => cases left <;> simp only [program, Pc.instr, Instr.Leads] at hleads <;> grind [Pc.owned]
  | cleanOpen left => cases left <;> simp only [program, Pc.instr, Instr.Leads] at hleads <;> grind [Pc.owned]
  | _ => simp only [program, Pc.instr, Instr.Leads] at hleads; grind [Pc.owned]

theorem confirmed_next (hs : Step program s t s') {lock live : ℕ} (h : (s'.pc t).confirmed = some (lock, live)) :
    s'.names .lock = s.names .lock ∧ s'.names .live = s.names .live ∧
      ((s.pc t).confirmed = some (lock, live) ∨ s.names .lock = some lock) := by
  have hleads := hs.leads
  clear hs
  generalize s.pc t = pc, s'.pc t = pc', s'.names = names' at *
  rcases hleads with ⟨rfl, rfl⟩ | hleads
  · cases h
  cases pc with
  | openLock left => cases left <;> simp only [program, Pc.instr, Instr.Leads] at hleads <;> grind [Pc.confirmed]
  | cleanOpen left => cases left <;> simp only [program, Pc.instr, Instr.Leads] at hleads <;> grind [Pc.confirmed]
  | _ => simp only [program, Pc.instr, Instr.Leads] at hleads; grind [Pc.confirmed]

/-- The lock file of another process that found it in its place stays there, as long as the live file does. -/
theorem Inv.lock_stays (h : Inv s) (hown : Own s t s') (hs : Step program s t s') {u lock live : ℕ} (hu : u ≠ t)
    (hc : (s.pc u).confirmed = some (lock, live)) (hlive : s'.names .live = some live) :
    s'.names .lock = some lock := by
  obtain ⟨hlock, hheld⟩ := Pc.mem_of_confirmed hc
  rcases hs.names with hsame | ⟨path, hnames, hmade⟩ | ⟨path, next, hi, hnames⟩
  · rw [hsame] at hlive ⊢
    exact h.lock hc hlive
  · -- The file that the live path names is older than the one just made.
    have hpath : path ≠ .live := by
      rintro rfl
      rw [hnames, Function.update_self] at hlive
      have hold := h.sound.known (program.held_known _ hheld)
      obtain rfl := Option.some.inj hlive
      exact Nat.lt_irrefl _ hold
    rw [hnames, Function.update_of_ne hpath.symm] at hlive
    have hname := h.lock hc hlive
    rw [hnames, Function.update_of_ne, hname]
    rcases hmade with ⟨next, -, hnone⟩ | ⟨next, hi⟩
    · rintro rfl
      rw [hnone] at hname
      cases hname
    · exact (Pc.writes_path hi).1.symm
  · have hpath : path ≠ .live := by
      rintro rfl
      rw [hnames, Function.update_self] at hlive
      cases hlive
    rw [hnames, Function.update_of_ne hpath.symm] at hlive
    have hname := h.lock hc hlive
    rw [hnames, Function.update_of_ne, hname]
    rintro rfl
    have hremoved : s'.pc t = next := by
      rcases hs.leads with ⟨-, hsame⟩ | hleads
      · rw [hnames] at hsame
        have hnone := congrFun hsame .lock
        rw [Function.update_self, hname] at hnone
        cases hnone
      · rw [hi] at hleads
        exact hleads.2
    rcases Pc.removes_lock hi with ⟨live', howned⟩ | ⟨lock', live', hdrop⟩
    · -- A cleaner owns the live file, which is locked by the other process.
      obtain rfl := Option.some.inj ((h.live howned).symm.trans hlive)
      exact hu (h.sound.alone hheld (Pc.mem_of_owned howned))
    · by_cases hsame : lock = lock'
      · subst hsame
        refine hu (h.sound.alone hlock ?_)
        rw [hdrop]
        exact List.mem_cons_self
      · have hnext : next = .dropped lock' live' := by
          rw [hdrop] at hi
          cases hi
          rfl
        exact hown lock' live' hdrop (hremoved.trans hnext) lock hname hsame u live hc

theorem Inv.step (h : Inv s) (hown : Own s t s') (hs : Step program s t s') : Inv s' := by
  refine ⟨h.sound.step hs, fun {u live} howned => ?_, fun {u lock live} hc hlive => ?_⟩
  · by_cases hu : u = t
    · subst hu
      obtain ⟨hnames, hbefore⟩ := owned_next hs howned
      rw [hnames]
      rcases hbefore with hbefore | hfound
      · exact h.live hbefore
      · exact hfound
    · rw [hs.pc_of_ne hu] at howned
      exact h.live_stays hs hu howned
  · by_cases hu : u = t
    · subst hu
      obtain ⟨hlock, hnames, hbefore⟩ := confirmed_next hs hc
      rw [hlock]
      rw [hnames] at hlive
      rcases hbefore with hbefore | hfound
      · exact h.lock hbefore hlive
      · exact hfound
    · rw [hs.pc_of_ne hu] at hc
      exact h.lock_stays hown hs hu hc hlive

theorem Inv.start (h : Start program s) : Inv s := by
  refine ⟨h.sound, fun {u live} howned => ?_, fun {u lock live} hc => ?_⟩
  · rw [h.idle u] at howned
    cases howned
  · rw [h.idle u] at hc
    cases hc

theorem inv_reached (h : Reached program Own s) : Inv s := by
  induction h with
  | start hs => exact .start hs
  | step _ hown hs ih => exact ih.step hown hs

/-- What the lock files promise in a state: no two guards; a guard's locked files are in their places; while there is one,
no other process removes a record or a socket, and every probe finds the runner alive. -/
structure Guarded (s : World) : Prop where
  alone : ∀ t u x y, (s.pc t).guard = some x → (s.pc u).guard = some y → t = u
  named : ∀ t lock live, (s.pc t).guard = some (lock, live) → s.names .lock = some lock ∧ s.names .live = some live ∧
    lock ∈ (s.pc t).held ∧ live ∈ (s.pc t).held
  kept : ∀ t x, (s.pc t).guard = some x → ∀ u s', u ≠ t → Step program s u s' →
    s'.names .record = s.names .record ∧ s'.names .socket = s.names .socket
  probed : ∀ t lock live, (s.pc t).guard = some (lock, live) → ∀ u s', Step program s u s' → s'.pc u ≠ .idle →
    (s.pc u = .probeOpen → s'.pc u = .probeFlock live) ∧ (s.pc u = .probeFlock live → s'.pc u = .probed true live)

theorem opens_path {pc : Pc} {path : Path} {next : ℕ → Pc} (h : pc.instr = .opens path next) :
    path = .lock ∨ path = .live := by
  cases pc with
  | openLock left => cases left <;> simp_all [Pc.instr]
  | cleanOpen left => cases left <;> simp_all [Pc.instr]
  | _ => simp_all [Pc.instr]

theorem Inv.guard_alone (h : Inv s) {u : ℕ} {x y : ℕ × ℕ} (ht : (s.pc t).guard = some x)
    (hu : (s.pc u).guard = some y) : t = u :=
  h.alone (Pc.guard_confirmed ht).2 (Pc.guard_confirmed hu).2

theorem Inv.kept (h : Inv s) {x : ℕ × ℕ} (ht : (s.pc t).guard = some x) {u : ℕ} (hu : u ≠ t) (hs : Step program s u s')
    {path : Path} (hpath : path = .record ∨ path = .socket) : s'.names path = s.names path := by
  have howned := (Pc.guard_confirmed ht).2
  rcases hs.names with hsame | ⟨path', hnames, ⟨next, hi, -⟩ | ⟨next, hi⟩⟩ | ⟨path', next, hi, hnames⟩
  · rw [hsame]
  · rw [hnames, Function.update_of_ne]
    rintro rfl
    rcases opens_path hi with rfl | rfl <;> rcases hpath with h | h <;> cases h
  · obtain ⟨y, hy⟩ := (Pc.writes_path hi).2.2
    exact absurd (h.guard_alone hy ht) hu
  · rw [hnames, Function.update_of_ne]
    rintro rfl
    obtain ⟨live, howned'⟩ := Pc.removes_owned hi (.inr hpath)
    exact hu (h.alone howned' howned)

/-- In every run in which no runner that ends removes the lock file of another one that found it in its place, the lock files
keep their promises in every state. -/
theorem guarded_of_reached (h : Reached program Own s) : Guarded s := by
  have hinv := inv_reached h
  refine ⟨fun t u x y ht hu => hinv.guard_alone ht hu, fun t lock live ht => ?_,
    fun t x ht u s' hu hs =>
      ⟨hinv.kept ht hu hs (.inl rfl), hinv.kept ht hu hs (.inr rfl)⟩, fun t lock live ht u s' hs hidle => ?_⟩
  · obtain ⟨hc, howned⟩ := Pc.guard_confirmed ht
    have hlive := hinv.live howned
    exact ⟨hinv.lock hc hlive, hlive, Pc.mem_of_confirmed hc⟩
  · obtain ⟨hc, howned⟩ := Pc.guard_confirmed ht
    have hlive := hinv.live howned
    rcases hs.leads with ⟨hdead, -⟩ | hleads
    · exact absurd hdead hidle
    refine ⟨fun hopen => ?_, fun hflock => ?_⟩
    · rw [hopen] at hleads
      rcases hleads.2 with ⟨file, hname, hnext⟩ | ⟨hname, -⟩
      · rw [hlive] at hname
        cases hname
        exact hnext
      · rw [hlive] at hname
        cases hname
    · rw [hflock] at hleads
      rcases hleads.2 with ⟨-, hfree⟩ | ⟨hnext, -⟩
      · exact absurd (Pc.mem_of_confirmed hc).2 (hfree t)
      · exact hnext

def empty : World := ⟨fun _ => none, 0, fun _ => .idle⟩

theorem empty_start : Start program empty := ⟨fun _ => rfl, fun _ _ h => by cases h⟩

section runs

variable {allowed : World → ℕ → World → Prop}

theorem go (h : Reached program allowed s) (t : ℕ) (hown : allowed s t s') (hs : Step program s t s') :
    Reached program allowed s' :=
  h.step hown hs

theorem free_of {file : ℕ} (hzero : file ∉ (s.pc 0).held) (hone : file ∉ (s.pc 1).held) (htwo : file ∉ (s.pc 2).held)
    (hrest : ∀ u, s.pc (u + 3) = .idle) : Free program s file := by
  intro u
  rcases u with _ | _ | _ | u
  · exact hzero
  · exact hone
  · exact htwo
  · change file ∉ (s.pc (u + 3)).held
    rw [hrest]
    exact List.not_mem_nil

theorem reached_swept : ∃ s : World, Reached program Own s ∧ s.names = Function.update (fun _ => none) .lock (some 3) ∧
    s.made = 4 ∧ s.pc = Function.update (Function.update (fun _ => .idle) 0 (.dropLock 0 1)) 2 (.flockLock 7 3) := by
  -- A runner starts,
  have h1 := go (.start empty_start : Reached program Own _) 0 (fun _ _ h => by cases h) (.jumped (.openLock 8) rfl (.inl rfl))
  have h2 := go h1 0 (fun _ _ h => by cases h) (.made rfl rfl)
  have h3 := go h2 0 (fun _ _ h => by cases h) (.got rfl (free_of (by decide) (by decide) (by decide) fun _ => rfl))
  have h4 := go h3 0 (fun _ _ h => by cases h) (.made rfl rfl)
  have h5 := go h4 0 (fun _ _ h => by cases h) (.waited rfl (free_of (by decide) (by decide) (by decide) fun _ => rfl))
  have h6 := go h5 0 (fun _ _ h => by cases h) (.same rfl rfl)
  have h7 := go h6 0 (fun _ _ h => by cases h) (.same rfl rfl)
  have h8 := go h7 0 (fun _ _ h => by cases h) (.removed rfl)
  have h9 := go h8 0 (fun _ _ h => by cases h) (.removed rfl)
  have h10 := go h9 0 (fun _ _ h => by cases h) (.removed rfl)
  -- ends, and has removed its live file.
  have h11 := go h10 0 (fun _ _ h => by cases h) (.jumped (.dropSocket 0 1) rfl (.inr (.inr (.inr (.inr rfl)))))
  have h12 := go h11 0 (fun _ _ h => by cases h) (.removed rfl)
  have h13 := go h12 0 (fun _ _ h => by cases h) (.removed rfl)
  have h14 := go h13 0 (fun _ _ h => by cases h) (.removed rfl)
  -- A cleaner makes another and sweeps the directory.
  have h15 := go h14 1 (fun _ _ h => by cases h) (.jumped (.cleanOpen 8) rfl (.inr (.inl rfl)))
  have h16 := go h15 1 (fun _ _ h => by cases h) (.made rfl rfl)
  have h17 := go h16 1 (fun _ _ h => by cases h) (.got rfl (free_of (by decide) (by decide) (by decide) fun _ => rfl))
  have h18 := go h17 1 (fun _ _ h => by cases h) (.same rfl rfl)
  have h19 := go h18 1 (fun _ _ h => by cases h) (.removed rfl)
  have h20 := go h19 1 (fun _ _ h => by cases h) (.removed rfl)
  have h21 := go h20 1 (fun _ _ h => by cases h) (.removed rfl)
  have h22 := go h21 1 (fun _ _ h => by cases h) (.removed rfl)
  have h23 := go h22 1 (fun _ _ h => by cases h) (.removed rfl)
  have h24 := go h23 1 (fun _ _ h => by cases h) (.jumped .idle rfl rfl)
  -- The next runner begins.
  have h25 := go h24 2 (fun _ _ h => by cases h) (.jumped (.openLock 8) rfl (.inl rfl))
  have h26 := go h25 2 (fun _ _ h => by cases h) (.made rfl rfl)
  refine ⟨_, h26, ?_, rfl, ?_⟩
  · funext path
    cases path <;> rfl
  · funext u
    rcases u with _ | _ | _ | u <;> rfl

/-- The one that ends removes a lock file that its runner has not found in its place yet: it makes another. -/
theorem guarded_of_reached_started : ∃ s : World, (s.pc 2).guard = some (5, 4) ∧ Guarded s := by
  obtain ⟨⟨names, made, pc⟩, hswept, hnames, hmade, hpc⟩ := reached_swept
  obtain rfl : names = _ := hnames
  obtain rfl : made = _ := hmade
  obtain rfl : pc = _ := hpc
  have h0 := go hswept 0 (fun _ _ _ _ _ _ _ u _ hc => by rcases u with _ | _ | _ | u <;> cases hc) (.removed rfl)
  have h1 := go h0 2 (fun _ _ h => by cases h) (.got rfl (free_of (by decide) (by decide) (by decide) fun _ => rfl))
  have h2 := go h1 2 (fun _ _ h => by cases h) (.made rfl rfl)
  have h3 := go h2 2 (fun _ _ h => by cases h) (.waited rfl (free_of (by decide) (by decide) (by decide) fun _ => rfl))
  have h4 := go h3 2 (fun _ _ h => by cases h) (.differs rfl fun h => by cases h)
  have h5 := go h4 2 (fun _ _ h => by cases h) (.jumped (.closeLock 7 3) rfl rfl)
  have h6 := go h5 2 (fun _ _ h => by cases h) (.jumped (.openLock 7) rfl rfl)
  have h7 := go h6 2 (fun _ _ h => by cases h) (.made rfl rfl)
  have h8 := go h7 2 (fun _ _ h => by cases h) (.got rfl (free_of (by decide) (by decide) (by decide) fun _ => rfl))
  have h9 := go h8 2 (fun _ _ h => by cases h) (.opened rfl rfl)
  have h10 := go h9 2 (fun _ _ h => by cases h) (.waited rfl (free_of (by decide) (by decide) (by decide) fun _ => rfl))
  have h11 := go h10 2 (fun _ _ h => by cases h) (.same rfl rfl)
  have h12 := go h11 2 (fun _ _ h => by cases h) (.same rfl rfl)
  have h13 := go h12 2 (fun _ _ h => by cases h) (.removed rfl)
  have h14 := go h13 2 (fun _ _ h => by cases h) (.removed rfl)
  have h15 := go h14 2 (fun _ _ h => by cases h) (.removed rfl)
  exact ⟨_, rfl, guarded_of_reached h15⟩

/-- A runner that ends removes the live file before the lock file: a cleaner sweeps the directory in between, the next
runner starts, and its lock file goes. -/
theorem not_guarded : ∃ s : World, Reached program (fun _ _ _ => True) s ∧ ¬ Guarded s := by
  obtain ⟨⟨names, made, pc⟩, hswept, hnames, hmade, hpc⟩ := reached_swept
  obtain rfl : names = _ := hnames
  obtain rfl : made = _ := hmade
  obtain rfl : pc = _ := hpc
  -- The next runner starts.
  have h0 : Reached program (fun _ _ _ => True) _ := hswept.mono fun _ _ _ _ => trivial
  have h1 := go h0 2 trivial (.got rfl (free_of (by decide) (by decide) (by decide) fun _ => rfl))
  have h2 := go h1 2 trivial (.made rfl rfl)
  have h3 := go h2 2 trivial (.waited rfl (free_of (by decide) (by decide) (by decide) fun _ => rfl))
  have h4 := go h3 2 trivial (.same rfl rfl)
  have h5 := go h4 2 trivial (.same rfl rfl)
  have h6 := go h5 2 trivial (.removed rfl)
  have h7 := go h6 2 trivial (.removed rfl)
  have h8 := go h7 2 trivial (.removed rfl)
  -- The first one removes a lock file.
  have h9 := go h8 0 trivial (.removed rfl)
  refine ⟨_, h9, fun h => ?_⟩
  have hname := (h.named 2 3 4 rfl).1
  cases hname

end runs

end Lockfile

end Dekit
