import Dekit.Turns

namespace Dekit

open Relation

namespace Graph

variable {τ : Type}

/-- What the caches of `wanted` are checked against: a search from the pins through what is not
vetoed. -/
def oracleWantedSet (g : Graph τ) : List TaskId :=
  if g.quitting then []
  else (Worklist.Search.run (fun id => g.walk id (g.edges id))
    (fun id => (g.tasks.lookup id).any (fun t => !t.vetoed)) (g.tasks.keys.card + 1)
    (.start initTaskId)).found

abbrev Memo := Finmap (fun _ : TaskId => Bool)

/-- Ends at the first dependency that is not supported or not satisfied. -/
def oracleDeps (g : Graph τ) (supported : TaskId → Memo → Bool × Memo) : List TaskId → Memo → Bool × Memo
  | [], memo => (true, memo)
  | dep :: deps, memo =>
    let (ok, memo) := supported dep memo
    if !ok || !(g.tasks.lookup dep).any (·.isSatisfied) then (false, memo)
    else oracleDeps g supported deps memo

def oracleSupported (g : Graph τ) (wanted : List TaskId) : ℕ → TaskId → Memo → Bool × Memo
  | 0, _, memo => (false, memo)
  | fuel + 1, id, memo => match memo.lookup id with
    | some ok => (ok, memo)
    | none =>
      let (ok, memo) := if id ∈ wanted
        then oracleDeps g (oracleSupported g wanted fuel) (g.walk id (g.edges id)) memo
        else (false, memo)
      (ok, memo.insert id ok)

def oracleSupportedSet (g : Graph τ) (wanted : List TaskId) : Finset TaskId :=
  let memo := (g.walk initTaskId g.tasks.keys).foldl
    (fun memo id => (g.oracleSupported wanted (g.tasks.keys.card + 1) id memo).2) ∅
  memo.keys.filter (fun id => memo.lookup id = some true)

variable {g : Graph τ} {x : TaskId} {wanted : List TaskId}

theorem mem_oracleWantedSet (hs : g.view.Shape) : x ∈ g.oracleWantedSet ↔ g.view.Wants x := by
  unfold oracleWantedSet View.Wants
  cases hq : g.quitting with
  | true => simp [view, hq]
  | false =>
    have hwalk : Worklist.Search.Walk (fun id => g.walk id (g.edges id))
        (fun id => (g.tasks.lookup id).any (fun t => !t.vetoed)) = g.view.Pull := by
      funext a b
      simp only [Worklist.Search.Walk, View.Pull, View.Dep, mem_walk, eq_iff_iff]
      refine and_congr_right fun hb => ?_
      have hreg := (hs.registered b).mp (hs.target a b hb)
      cases ht : g.tasks.lookup b with
      | none => simp [view_node, ht] at hreg
      | some t => simp [View.vetoed, view_node, ht, TaskHandle.node]
    rw [if_neg (by simp), Worklist.Search.mem_found_iff (s := g.tasks.keys), hwalk]
    · simp [view, hq]
    · exact fun a b hb => hs.target a b (mem_walk.mp hb)
    · exact fun a hb => hs.init (hs.target a _ (mem_walk.mp hb))
    · exact le_rfl

def Right (g : Graph τ) (memo : Memo) : Prop :=
  ∀ x ok, memo.lookup x = some ok → x ∈ g.tasks.keys ∧ (ok = true ↔ g.view.Supported x)

theorem oracleDeps_right {supported : TaskId → Memo → Bool × Memo} {deps : List TaskId} {memo : Memo}
    (hrec : ∀ d ∈ deps, ∀ memo, Right g memo → Right g (supported d memo).2 ∧
      ((supported d memo).1 = true ↔ g.view.Supported d)) (hm : Right g memo) :
    Right g (g.oracleDeps supported deps memo).2 ∧ ((g.oracleDeps supported deps memo).1 = true ↔
      ∀ d ∈ deps, g.view.Supported d ∧ g.view.satisfied d = true) := by
  induction deps generalizing memo with
  | nil => exact ⟨hm, by simp [oracleDeps]⟩
  | cons d deps ih =>
    obtain ⟨hm', hd⟩ := hrec d List.mem_cons_self memo hm
    have hsat : (g.tasks.lookup d).any (·.isSatisfied) = g.view.satisfied d := by
      unfold View.satisfied
      rw [view_node]
      cases g.tasks.lookup d <;> rfl
    unfold oracleDeps
    generalize supported d memo = r at hm' hd ⊢
    obtain ⟨ok, memo'⟩ := r
    simp only [hsat]
    split
    · rename_i hno
      refine ⟨hm', ?_⟩
      simp only [Bool.false_eq_true, false_iff, not_forall]
      refine ⟨d, List.mem_cons_self, fun h => ?_⟩
      rw [show ok = true from hd.mpr h.1, h.2] at hno
      cases hno
    · rename_i hyes
      obtain ⟨hm'', hds⟩ := ih (fun d hd => hrec d (List.mem_cons_of_mem _ hd)) hm'
      refine ⟨hm'', hds.trans ?_⟩
      simp only [List.mem_cons, forall_eq_or_imp, iff_and_self]
      intro _
      have hok : ok = true ∧ g.view.satisfied d = true := by
        cases ok <;> cases hs : g.view.satisfied d <;> simp_all
      exact ⟨hd.mp hok.1, hok.2⟩

theorem oracleSupported_right (hs : g.view.Shape) (hw : ∀ x, x ∈ wanted ↔ g.view.Wants x) (fuel : ℕ)
    (hx : x ∈ g.tasks.keys) (hfuel : g.view.below x < fuel) {memo : Memo} (hm : Right g memo) :
    Right g (g.oracleSupported wanted fuel x memo).2 ∧
      ((g.oracleSupported wanted fuel x memo).1 = true ↔ g.view.Supported x) := by
  induction fuel generalizing x memo with
  | zero => omega
  | succ fuel ih =>
    unfold oracleSupported
    cases hl : memo.lookup x with
    | some ok => exact ⟨hm, (hm x ok hl).2⟩
    | none =>
      have hput {ok : Bool} {memo : Memo} (hm : Right g memo) (hok : ok = true ↔ g.view.Supported x) :
          Right g (memo.insert x ok) := by
        intro y ok' hy
        rw [Finmap.lookup_insert_ite] at hy
        split at hy
        · rename_i he
          obtain rfl := Option.some.inj hy
          exact he ▸ ⟨hx, hok⟩
        · exact hm y ok' hy
      have hr : Right g (if x ∈ wanted
          then oracleDeps g (oracleSupported g wanted fuel) (g.walk x (g.edges x)) memo
          else (false, memo)).2 ∧ ((if x ∈ wanted
          then oracleDeps g (oracleSupported g wanted fuel) (g.walk x (g.edges x)) memo
          else (false, memo)).1 = true ↔ g.view.Supported x) := by
        split
        · rename_i hxw
          have hrec : ∀ d ∈ g.walk x (g.edges x), ∀ memo, Right g memo →
              Right g (oracleSupported g wanted fuel d memo).2 ∧
                ((oracleSupported g wanted fuel d memo).1 = true ↔ g.view.Supported d) := by
            intro d hd memo hm
            have hdep : g.view.Dep x d := mem_walk.mp hd
            have hlt := View.below_lt hs hdep
            exact ih (hs.target x d hdep) (by omega) hm
          obtain ⟨hm', hd⟩ := oracleDeps_right hrec hm
          refine ⟨hm', hd.trans ⟨fun h => ?_, fun h d hd => ?_⟩⟩
          · exact .intro ((hw x).mp hxw) (fun d hd => (h d (mem_walk.mpr hd)).1)
              fun d hd => (h d (mem_walk.mpr hd)).2
          · obtain ⟨-, hsup, hsat⟩ := h
            exact ⟨hsup d (mem_walk.mp hd), hsat d (mem_walk.mp hd)⟩
        · rename_i hxw
          refine ⟨hm, ?_⟩
          simp only [Bool.false_eq_true, false_iff]
          rintro ⟨hwx, -, -⟩
          exact hxw ((hw x).mpr hwx)
      simp only
      generalize (if x ∈ wanted
          then oracleDeps g (oracleSupported g wanted fuel) (g.walk x (g.edges x)) memo
          else (false, memo)) = r at hr ⊢
      exact ⟨hput hr.1 hr.2, hr.2⟩

theorem oracleSupported_keeps (fuel : ℕ) {y : TaskId} {memo : Memo} (h : y ∈ memo) :
    y ∈ (g.oracleSupported wanted fuel x memo).2 := by
  induction fuel generalizing x memo with
  | zero => exact h
  | succ fuel ih =>
    have hdeps (deps : List TaskId) (memo : Memo) (h : y ∈ memo) :
        y ∈ (g.oracleDeps (oracleSupported g wanted fuel) deps memo).2 := by
      induction deps generalizing memo with
      | nil => exact h
      | cons d deps ihd =>
        unfold oracleDeps
        simp only
        split
        · exact ih h
        · exact ihd _ (ih h)
    unfold oracleSupported
    split
    · exact h
    · refine Finmap.mem_insert.mpr (.inr ?_)
      split
      · exact hdeps _ _ h
      · exact h

theorem oracleSupported_remembers (fuel : ℕ) (memo : Memo) :
    x ∈ (g.oracleSupported wanted (fuel + 1) x memo).2 := by
  unfold oracleSupported
  split
  · rename_i hl
    exact Finmap.mem_of_lookup_eq_some hl
  · exact Finmap.mem_insert.mpr (.inl rfl)

theorem mem_oracleSupportedSet (hs : g.view.Shape) (hw : ∀ x, x ∈ wanted ↔ g.view.Wants x) :
    x ∈ g.oracleSupportedSet wanted ↔ x ∈ g.tasks.keys ∧ g.view.Supported x := by
  have hfold (l : List TaskId) (hl : ∀ y ∈ l, y ∈ g.tasks.keys) (memo : Memo) (hm : Right g memo) :
      Right g (l.foldl (fun memo id => (g.oracleSupported wanted (g.tasks.keys.card + 1) id memo).2) memo) ∧
      ∀ y, y ∈ memo ∨ y ∈ l →
        y ∈ l.foldl (fun memo id => (g.oracleSupported wanted (g.tasks.keys.card + 1) id memo).2) memo := by
    induction l generalizing memo with
    | nil => exact ⟨hm, fun y hy => hy.resolve_right (by simp)⟩
    | cons z l ih =>
      have hz := hl z List.mem_cons_self
      have hr := oracleSupported_right hs hw (g.tasks.keys.card + 1) hz
        (Nat.lt_succ_of_le (g.view.below_le)) hm
      obtain ⟨hm', hmem⟩ := ih (fun y hy => hl y (List.mem_cons_of_mem _ hy)) _ hr.1
      refine ⟨hm', fun y hy => hmem y ?_⟩
      rcases hy with hy | hy
      · exact .inl (oracleSupported_keeps _ hy)
      · rcases List.mem_cons.mp hy with rfl | hy
        · exact .inl (oracleSupported_remembers _ memo)
        · exact .inr hy
  obtain ⟨hm, hmem⟩ := hfold (g.walk initTaskId g.tasks.keys) (fun y hy => mem_walk.mp hy) ∅
    fun y ok hy => by simp at hy
  unfold oracleSupportedSet
  simp only
  generalize (g.walk initTaskId g.tasks.keys).foldl
    (fun memo id => (g.oracleSupported wanted (g.tasks.keys.card + 1) id memo).2) ∅ = memo at hm hmem ⊢
  rw [Finset.mem_filter]
  constructor
  · rintro ⟨-, hx⟩
    exact ⟨(hm x true hx).1, (hm x true hx).2.mp rfl⟩
  · rintro ⟨hx, hsup⟩
    have hxm := hmem x (.inr (mem_walk.mpr hx))
    obtain ⟨ok, hok⟩ := Option.isSome_iff_exists.mp (Finmap.lookup_isSome.mpr hxm)
    refine ⟨Finmap.mem_keys.mpr hxm, ?_⟩
    rw [hok, (hm x ok hok).2.mpr hsup]

end Graph

end Dekit
