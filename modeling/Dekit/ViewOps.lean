import Dekit.View

namespace Dekit

/-- Counts a requirer among those that are wanted, and among those that are active, `k` times. -/
def Node.count (wanted active : Bool) (k : ℤ) (n : Node) : Node :=
  { n with
    wantedParents := if wanted then n.wantedParents + k else n.wantedParents
    activeDependents := if active then n.activeDependents + k else n.activeDependents }

def Node.setState (state : TaskState) (n : Node) : Node := { n with state }

def Node.setVetoed (vetoed : Bool) (n : Node) : Node := { n with vetoed }

def Node.setKind (kind : TaskKind) (n : Node) : Node := { n with kind }

def Node.setWanted (wanted : Bool) (n : Node) : Node := { n with wanted }

def Node.setSupported (supported : Bool) (n : Node) : Node := { n with supported }

@[simp]
theorem Node.count_state (wanted active : Bool) (k : ℤ) (n : Node) :
    (n.count wanted active k).state = n.state := rfl

@[simp]
theorem Node.count_wanted (wanted active : Bool) (k : ℤ) (n : Node) :
    (n.count wanted active k).wanted = n.wanted := rfl

@[simp]
theorem Node.setState_activeDependents (state : TaskState) (n : Node) :
    (n.setState state).activeDependents = n.activeDependents := rfl

@[simp]
theorem Node.count_none (k : ℤ) : Node.count false false k = id := rfl

namespace View

def isWanted (v : View) (x : TaskId) : Bool := x = initTaskId || (v.node x).any (·.wanted)

def isActive (v : View) (x : TaskId) : Bool :=
  x ≠ initTaskId && (v.node x).any (·.state.isActive)

def supports (v : View) (x : TaskId) : Bool := (v.node x).any (fun n => n.supported && n.isSatisfied)

def revise (v : View) (s : Finset TaskId) (f : Node → Node) : View :=
  { v with node := fun x => if x ∈ s then (v.node x).map f else v.node x }

def touch (v : View) (s : Finset TaskId) : View :=
  { v with dirty := v.dirty ∪ s.filter (fun x => x ≠ initTaskId ∧ x ∈ v.ids) }

def pop (v : View) (id : TaskId) : View := { v with dirty := v.dirty.erase id }

def linkEdge (v : View) (src dst : TaskId) : View :=
  { v with
    deps := Function.update v.deps src (insert dst (v.deps src))
    requirers := Function.update v.requirers dst (insert src (v.requirers dst)) }.revise {dst}
    (.count (v.isWanted src) (v.isActive src) 1)

def addEdge (v : View) (src dst : TaskId) : View :=
  if src = dst ∨ dst = initTaskId then v
  else if dst ∉ v.ids ∨ (src ≠ initTaskId ∧ src ∉ v.ids) then v
  else (if dst ∈ v.deps src then v else v.linkEdge src dst).touch {dst, src}

def cutEdge (v : View) (src dst : TaskId) : View :=
  { v with
    deps := Function.update v.deps src ((v.deps src).erase dst)
    requirers := Function.update v.requirers dst ((v.requirers dst).erase src) }.revise {dst}
    (.count (v.isWanted src) (v.isActive src) (-1))

def removeEdge (v : View) (src dst : TaskId) : View :=
  (if dst ∈ v.deps src then v.cutEdge src dst else v).touch {dst, src}

def setState (v : View) (id : TaskId) (state : TaskState) : View :=
  match v.node id with
  | none => v
  | some n =>
    if n.state = state then v
    else
      let w := (v.revise {id} (.setState state)).touch {id}
      let w := if n.isSatisfied = (n.setState state).isSatisfied then w else w.touch (v.requirers id)
      if n.state.isActive = state.isActive then w
      else (w.revise (v.deps id) (.count false true (if state.isActive then 1 else -1))).touch
        (v.deps id)

def setVetoed (v : View) (id : TaskId) (value : Bool) : View :=
  match v.node id with
  | none => v
  | some n =>
    if n.vetoed = value then v
    else (v.revise {id} (.setVetoed value)).touch {id}

def setKind (v : View) (id : TaskId) (kind : TaskKind) : View :=
  v.revise {id} (.setKind kind)

def insertTask (v : View) (id : TaskId) (n : Node) : View :=
  { v with ids := insert id v.ids, node := Function.update v.node id (some n) }

/-- The edges from a task to a set are gone. -/
def dropRequirers (v : View) (id : TaskId) (wanted active : Bool) (s : Finset TaskId) : View :=
  ({ v with requirers := fun x => if x ∈ s then (v.requirers x).erase id else v.requirers x }.revise s
    (.count wanted active (-1))).touch s

def dropDeps (v : View) (id : TaskId) (s : Finset TaskId) : View :=
  { v with deps := fun x => if x ∈ s then (v.deps x).erase id else v.deps x }.touch s

/-- The task and every edge it is an end of are gone. -/
def removeTask (v : View) (id : TaskId) : View :=
  match v.node id with
  | none => v
  | some n =>
    { v with
      ids := v.ids.erase id
      node := fun x => if x = id then none
        else if x ∈ v.deps id then (v.node x).map (.count n.wanted n.state.isActive (-1))
        else v.node x
      deps := fun x => if x = id then ∅
        else if x ∈ v.requirers id then (v.deps x).erase id else v.deps x
      requirers := fun x => if x = id then ∅
        else if x ∈ v.deps id then (v.requirers x).erase id else v.requirers x
      dirty := v.dirty.erase id }.touch (v.deps id ∪ v.requirers id)

def computeWanted (v : View) (n : Node) : Bool :=
  !v.quitting && !n.vetoed && decide (0 < n.wantedParents)

def computeSupported (v : View) (id : TaskId) (n : Node) : Bool :=
  n.wanted && decide (∀ dep ∈ v.deps id, v.supports dep = true)

def setWanted (v : View) (id : TaskId) (wanted : Bool) : View :=
  ((v.revise {id} (.setWanted wanted)).revise (v.deps id)
    (.count true false (if wanted then 1 else -1))).touch (v.deps id)

def setSupported (v : View) (id : TaskId) (supported : Bool) : View :=
  (v.revise {id} (.setSupported supported)).touch (v.requirers id)

def recomputeWanted (v : View) (id : TaskId) : View :=
  match v.node id with
  | none => v
  | some n => if n.wanted = v.computeWanted n then v else v.setWanted id (v.computeWanted n)

def recomputeSupported (v : View) (id : TaskId) : View :=
  match v.node id with
  | none => v
  | some n =>
    if n.supported = v.computeSupported id n then v else v.setSupported id (v.computeSupported id n)

def recompute (v : View) (id : TaskId) : View := (v.recomputeWanted id).recomputeSupported id

def quit (v : View) : View := { v with quitting := true }.touch v.ids

section simp

variable (v : View) (s t : Finset TaskId) (f : Node → Node) (x y : TaskId)

@[simp] theorem revise_quitting : (v.revise s f).quitting = v.quitting := rfl
@[simp] theorem revise_ids : (v.revise s f).ids = v.ids := rfl
@[simp] theorem revise_deps : (v.revise s f).deps = v.deps := rfl
@[simp] theorem revise_requirers : (v.revise s f).requirers = v.requirers := rfl
@[simp] theorem revise_dirty : (v.revise s f).dirty = v.dirty := rfl
@[simp] theorem revise_node :
    (v.revise s f).node x = if x ∈ s then (v.node x).map f else v.node x := rfl

@[simp] theorem touch_quitting : (v.touch s).quitting = v.quitting := rfl
@[simp] theorem touch_ids : (v.touch s).ids = v.ids := rfl
@[simp] theorem touch_deps : (v.touch s).deps = v.deps := rfl
@[simp] theorem touch_requirers : (v.touch s).requirers = v.requirers := rfl
@[simp] theorem touch_node : (v.touch s).node = v.node := rfl
@[simp] theorem mem_touch_dirty :
    x ∈ (v.touch s).dirty ↔ x ∈ v.dirty ∨ x ∈ s ∧ x ≠ initTaskId ∧ x ∈ v.ids := by
  simp [touch]

@[simp] theorem pop_quitting : (v.pop y).quitting = v.quitting := rfl
@[simp] theorem pop_ids : (v.pop y).ids = v.ids := rfl
@[simp] theorem pop_deps : (v.pop y).deps = v.deps := rfl
@[simp] theorem pop_requirers : (v.pop y).requirers = v.requirers := rfl
@[simp] theorem pop_node : (v.pop y).node = v.node := rfl
@[simp] theorem pop_dirty : (v.pop y).dirty = v.dirty.erase y := rfl

theorem touch_touch : (v.touch s).touch t = v.touch (s ∪ t) := by
  simp [touch, Finset.filter_union]

theorem touch_revise : (v.touch s).revise t f = (v.revise t f).touch s := rfl

@[simp]
theorem touch_empty : v.touch ∅ = v := by simp [touch]

@[simp]
theorem revise_empty : v.revise ∅ f = v := by simp [revise]

theorem revise_revise (hst : Disjoint s t) : (v.revise s f).revise t f = v.revise (s ∪ t) f := by
  unfold revise
  congr 1
  funext x
  by_cases hs : x ∈ s
  · simp [hs, Finset.disjoint_left.mp hst hs]
  · simp [hs]

@[simp]
theorem revise_id : v.revise s id = v := by
  simp [revise]

end simp

end View

end Dekit
