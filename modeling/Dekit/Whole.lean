import Dekit.Orderly
import Dekit.Refusals

/-! A batch with nothing in another's way, whose deps are its own and on no cycle, goes in whole. -/

namespace Dekit

namespace Graph

variable {τ : Type} {g : Graph τ} {s : TaskSpaceId}

theorem resolveDeps_ids {ids : List TaskId} (h : ∀ x ∈ ids, x ∈ g.tasks) :
    ∃ deps, g.resolveDeps (ids.map TaskSelector.id) = .ok deps ∧ deps.toFinset = ids.toFinset := by
  have hrun (acc : List TaskId) : ∃ deps, (ids.map TaskSelector.id).foldlM (fun deps selector =>
      let ids := g.matchingIds selector
      if ids.isEmpty then Except.error (RegisterError.missingDep selector) else .ok (ids.foldl addNew deps)) acc = .ok deps ∧
      deps.toFinset = acc.toFinset ∪ ids.toFinset := by
    induction ids generalizing acc with
    | nil => exact ⟨acc, rfl, by simp⟩
    | cons x ids ih =>
      obtain ⟨hx, hall⟩ := List.forall_mem_cons.mp h
      obtain ⟨deps, hdeps, heq⟩ := ih hall (addNew acc x)
      refine ⟨deps, ?_, ?_⟩
      · rw [List.map_cons, List.foldlM_cons]
        simp only [matchingIds, if_pos hx]
        exact hdeps
      · rw [heq]
        unfold addNew
        ext y
        split
        · rename_i hin
          simp only [Finset.mem_union, List.mem_toFinset, List.mem_cons]
          refine or_congr_right' fun hy => ?_
          constructor
          · exact .inr
          · rintro (rfl | hy')
            · exact absurd hin hy
            · exact hy'
        · simp
  obtain ⟨deps, hdeps, heq⟩ := hrun []
  exact ⟨deps, hdeps, by simpa using heq⟩

/-- A graph lets a registration in: its id and path are free, and its deps are there. -/
structure Admits (g : Graph τ) (s : TaskSpaceId) (r : Registration τ) (path : TaskPath) : Prop where
  fresh : r.id ∉ g.tasks ∧ r.id ∉ g.folders
  key : r.key = some ⟨s, path⟩
  above : (g.trie s).taskAbove path = none
  here : (g.trie s).content path = (none, none)
  below : r.isFolder = false → ∀ q, (g.trie s).content (path ++ q) = (none, none)
  deps : ∀ t, r = .task t → ∃ ids : List TaskId, t.def'.deps = ids.map TaskSelector.id ∧ ∀ x ∈ ids, x ∈ g.tasks

theorem Admits.registerOne [Task τ] {r : Registration τ} {path : TaskPath} {pending : TaskSpaceId → List TaskPath}
    (h : g.Admits s r path) (hg : g.Listed pending) (saved : Option Snap.Task) :
    (g.registerOne saved r).2 = .ok () := by
  cases r with
  | task t =>
    have hfree : ¬ (t.taskId ∈ g.tasks ∨ t.taskId ∈ g.folders) := fun hin => hin.elim h.fresh.1 h.fresh.2
    rw [show g.registerOne saved (.task t) = g.registerTaskWithId t.taskId t.def' t.factory saved from rfl]
    obtain ⟨ids, hids, hall⟩ := h.deps t rfl
    obtain ⟨deps, hdeps, -⟩ := resolveDeps_ids hall
    obtain ⟨p, hp, hkey⟩ := Option.map_eq_some_iff.mp h.key
    obtain ⟨rfl, rfl⟩ := TaskKey.mk.inj hkey
    obtain ⟨paths, hpaths⟩ := PathTrie.insert_free (hg.held _).named h.above (h.below rfl) t.taskId t.def'.place
    have hclaim : g.claimPath t.taskId t.def' = .ok { g with ns := g.ns.setPaths t.def'.space paths } := by
      unfold claimPath Namespace.insert
      rw [hp]
      simp only
      rw [show (g.ns.space t.def'.space).paths.insert p t.taskId t.def'.place = .ok paths from hpaths]
      rfl
    unfold registerTaskWithId
    rw [if_neg hfree, hids, hdeps]
    simp only
    rw [hclaim]
  | folder d =>
    have hfree : ¬ (d.id ∈ g.tasks ∨ d.id ∈ g.folders) := fun hin => hin.elim h.fresh.1 h.fresh.2
    rw [show g.registerOne saved (.folder d) = g.registerFolder d from rfl]
    obtain ⟨rfl, rfl⟩ := TaskKey.mk.inj (Option.some.inj h.key)
    obtain ⟨paths, hpaths⟩ := PathTrie.insertFolder_free h.above h.here d.id d.place
    have hinsert : g.ns.insertFolder ⟨d.space, d.path⟩ d.id d.place = .ok (g.ns.setPaths d.space paths) := by
      unfold Namespace.insertFolder
      rw [show (g.ns.space d.space).paths.insertFolder d.path d.id d.place = .ok paths from hpaths]
      rfl
    unfold registerFolder
    rw [if_neg hfree, hinsert]

/-- Nothing in a batch is in another's way, and its deps are its own and on no cycle. -/
structure Fitting (g : Graph τ) (s : TaskSpaceId) (rs : List (Registration τ)) : Prop where
  ids : (rs.map Registration.id).Nodup
  fresh : ∀ r ∈ rs, r.id ∉ g.tasks ∧ r.id ∉ g.folders
  keyed : ∀ r ∈ rs, r.place = .last ∧ ∃ p, p ≠ [] ∧ r.key = some ⟨s, p⟩
  apart : ∀ (i j : ℕ) (r r' : Registration τ) (p p' : TaskPath), rs[i]? = some r → rs[j]? = some r' → i ≠ j →
    r.key = some ⟨s, p⟩ → r'.key = some ⟨s, p'⟩ → p ≠ p' ∧ (r.isFolder = false → ¬ p <+: p')
  deps : ∀ t, .task t ∈ rs → ∃ ids : List TaskId, t.def'.deps = ids.map TaskSelector.id ∧
    ∀ x ∈ ids, ∃ t', .task t' ∈ rs ∧ t'.taskId = x
  acyclic : ∀ i < rs.length, Acc (fun d i => d ∈ Batch.deps rs i) i
  vacant : ∀ p, (g.trie s).content p = (none, none)

section batch

variable [Task τ] {rs : List (Registration τ)} {i : ℕ} {pending : TaskSpaceId → List TaskPath}

def plain (rs : List (Registration τ)) : List (Option Snap.Task × Registration τ) := rs.map fun r => (none, r)

omit [Task τ] in
theorem plain_snd (rs : List (Registration τ)) : (plain rs).map Prod.snd = rs := by
  unfold plain
  rw [List.map_map]
  exact List.map_id rs

omit [Task τ] in
theorem plain_get {r : Registration τ} : (plain rs)[i]? = some (none, r) ↔ rs[i]? = some r := by
  unfold plain
  rw [List.getElem?_map, Option.map_eq_some_iff]
  constructor
  · rintro ⟨r', hr', he⟩
    rw [hr', (Prod.mk.inj he).2]
  · exact fun h => ⟨r, h, rfl⟩

omit [Task τ] in
theorem Fitting.place_of_id (h : g.Fitting s rs) {j : ℕ} {r r' : Registration τ} (hi : rs[i]? = some r)
    (hj : rs[j]? = some r') (he : r.id = r'.id) : i = j := by
  obtain ⟨hi', rfl⟩ := List.getElem?_eq_some_iff.mp hi
  obtain ⟨hj', rfl⟩ := List.getElem?_eq_some_iff.mp hj
  have hlt : i < (rs.map Registration.id).length := by simpa using hi'
  have hlt' : j < (rs.map Registration.id).length := by simpa using hj'
  have hsame : (rs.map Registration.id)[i] = (rs.map Registration.id)[j] := by
    rwa [List.getElem_map, List.getElem_map]
  exact (List.Nodup.getElem_inj_iff h.ids).mp hsame

omit [Task τ] in
theorem Fitting.dep_prior (h : g.Fitting s rs) {l rest : List ℕ} (hl : Batch.order rs = l ++ i :: rest)
    {t : TaskRegistration τ} (hi : rs[i]? = some (.task t)) {x : TaskId} (hx : .id x ∈ t.def'.deps) :
    ∃ j ∈ l, ∃ t', rs[j]? = some (.task t') ∧ t'.taskId = x := by
  obtain ⟨ids, hids, hall⟩ := h.deps t (List.mem_of_getElem? hi)
  have hin : x ∈ ids := by
    rw [hids] at hx
    obtain ⟨y, hy, he⟩ := List.mem_map.mp hx
    rwa [← TaskSelector.id.inj he]
  obtain ⟨t', ht', rfl⟩ := hall x hin
  obtain ⟨j, hj, hget⟩ := List.getElem_of_mem ht'
  have hget' : rs[j]? = some (.task t') := by rw [List.getElem?_eq_getElem hj, hget]
  have hslot : Batch.slot rs t'.taskId = some j := by
    unfold Batch.slot
    cases hfind : (List.range rs.length).reverse.find? _ with
    | none =>
      have hnone := List.find?_eq_none.mp hfind j (List.mem_reverse.mpr (List.mem_range.mpr hj))
      rw [hget'] at hnone
      simp at hnone
    | some k =>
      have hk := List.find?_some hfind
      cases hr : rs[k]? with
      | none => simp [hr] at hk
      | some r =>
        cases r with
        | folder d => simp [hr] at hk
        | task r =>
          simp only [hr, beq_iff_eq] at hk
          rw [h.place_of_id hr hget' hk]
  refine ⟨j, Batch.order_prior h.acyclic l i rest hl j ?_, t', hget', rfl⟩
  unfold Batch.deps
  rw [hi]
  exact List.mem_filterMap.mpr ⟨t'.taskId, List.mem_filterMap.mpr ⟨.id t'.taskId, hx, rfl⟩, hslot⟩

theorem Fitting.found_before (h : g.Fitting s rs) (hg : g.Welcoming pending) {l : List ℕ}
    {acc : Graph τ × List (Except RegisterError Unit)}
    (hrun : Enrolling (rs.foldl holdPlace g) (plain rs) (fun s => places rs s ++ pending s) l acc) {p : TaskPath}
    (hp : (acc.1.trie s).content p ≠ (none, none)) :
    ∃ j ∈ l, ∃ r, rs[j]? = some r ∧ r.key = some ⟨s, p⟩ ∧
      (r.isFolder = false ↔ ((acc.1.trie s).content p).1 ≠ none) := by
  have hheld := ledger_holdPlaces rs g
  simp only [ledger, Prod.mk.injEq] at hheld
  have hlisted := hrun.registering.listed
  have hentered {folder : Bool} {x : TaskId} (hin : Entered (plain rs) acc.2 l folder x) :
      ∃ j ∈ l, ∃ r, rs[j]? = some r ∧ r.isFolder = folder ∧ r.id = x ∧ acc.1.Holds r := by
    obtain ⟨j, hj, e, he, hok, hf, hx⟩ := hin
    obtain ⟨r, hr, rfl⟩ := List.mem_map.mp (List.mem_of_getElem? he)
    exact ⟨j, hj, r, plain_get.mp he, hf, hx, hrun.registering.held j hj _ he hok⟩
  cases hc : (acc.1.trie s).content p with
  | mk task folder =>
    cases task with
    | some x =>
      have hhome := (hlisted.tasks s p x).mp (by rw [hc])
      have hx : x ∈ acc.1.tasks := by
        rw [← Finmap.lookup_isSome, ← Option.isSome_map, hhome]
        rfl
      rcases (hrun.members x).mp hx with hold | hin
      · rw [hrun.adds.tasks x hold, hheld.1] at hhome
        have hcontent := (hg.listed.tasks s p x).mpr hhome
        rw [h.vacant p] at hcontent
        cases hcontent
      · obtain ⟨j, hj, r, hr, hf, rfl, hholds⟩ := hentered hin
        refine ⟨j, hj, r, hr, ?_, by simp [hf]⟩
        cases r with
        | folder d => cases hf
        | task t =>
          obtain ⟨hs, hpath⟩ := Prod.mk.inj (Option.some.inj (hholds.symm.trans hhome))
          rw [show (Registration.task t).key = t.def'.path.map (TaskKey.mk t.def'.space) from rfl, hpath, hs]
          rfl
    | none =>
      cases folder with
      | none => exact absurd hc hp
      | some x =>
        have hhome := (hlisted.folders s p x).mp (by rw [hc])
        have hx : x ∈ acc.1.folders := by
          rw [← Finmap.lookup_isSome, ← Option.isSome_map, hhome]
          rfl
        rcases (hrun.shelves x).mp hx with hold | hin
        · rw [hrun.adds.folders x hold, hheld.2.1] at hhome
          have hcontent := (hg.listed.folders s p x).mpr hhome
          rw [h.vacant p] at hcontent
          cases hcontent
        · obtain ⟨j, hj, r, hr, hf, rfl, hholds⟩ := hentered hin
          refine ⟨j, hj, r, hr, ?_, by simp [hf]⟩
          cases r with
          | task t => cases hf
          | folder d =>
            obtain ⟨hs, hpath⟩ := Prod.mk.inj (Option.some.inj (hholds.symm.trans hhome))
            rw [show (Registration.folder d).key = some ⟨d.space, d.path⟩ from rfl, hpath, hs]

theorem Fitting.admits (h : g.Fitting s rs) (hg : g.Welcoming fun _ => []) {l rest : List ℕ}
    (hl : Batch.order rs = l ++ i :: rest) {r : Registration τ} (hi : rs[i]? = some r)
    (hok : ∀ j ∈ l, (g.registered (plain rs)).2[j]? = some (.ok ())) :
    ∃ p, (g.before (plain rs) i).1.Admits s r p := by
  have hl' : Batch.order ((plain rs).map Prod.snd) = l ++ i :: rest := by rwa [plain_snd]
  have hnodup : (Batch.order rs).Nodup := (Batch.order_perm rs).nodup_iff.mpr List.nodup_range
  rw [hl] at hnodup
  have hnot : i ∉ l := fun hin => (List.nodup_append.mp hnodup).2.2 i hin i List.mem_cons_self rfl
  have hrun := enrolling_before hg (plain rs) hl'
  rw [← before_eq hl' hnot] at hrun
  rw [plain_snd] at hrun
  have hother {j : ℕ} (hj : j ∈ l) : j ≠ i := fun he => hnot (he ▸ hj)
  have hheld := ledger_holdPlaces rs g
  simp only [ledger, Prod.mk.injEq] at hheld
  obtain ⟨-, p, hp, hkey⟩ := h.keyed r (List.mem_of_getElem? hi)
  have hr := h.fresh r (List.mem_of_getElem? hi)
  have hentered (folder : Bool) : ¬ Entered (plain rs) (g.before (plain rs) i).2 l folder r.id := by
    rintro ⟨j, hj, e, he, -, -, hid⟩
    obtain ⟨r', -, rfl⟩ := List.mem_map.mp (List.mem_of_getElem? he)
    exact hother hj (h.place_of_id (plain_get.mp he) hi hid)
  have hclear {q : TaskPath} (hq : ((g.before (plain rs) i).1.trie s).content q ≠ (none, none)) :
      p ≠ q ∧ (r.isFolder = false → ¬ p <+: q) ∧
        ((((g.before (plain rs) i).1.trie s).content q).1 ≠ none → ¬ q <+: p) := by
    obtain ⟨j, hj, r', hr', hkey', hfolder⟩ := h.found_before hg hrun hq
    have hap := h.apart i j r r' p q hi hr' (Ne.symm (hother hj)) hkey hkey'
    exact ⟨hap.1, hap.2, fun htask => (h.apart j i r' r q p hr' hi (hother hj) hkey' hkey).2 (hfolder.mpr htask)⟩
  have hdone {j : ℕ} (hj : j ∈ l) : (g.before (plain rs) i).2[j]? = some (.ok ()) := by
    have hlater : j ∉ i :: rest := fun hin => (List.nodup_append.mp hnodup).2.2 j hj j hin rfl
    have hend : g.registered (plain rs) = (i :: rest).foldl (registerAt (plain rs)) (g.before (plain rs) i) := by
      rw [before_eq hl' hnot, registered]
      conv_lhs => rw [hl']
      rw [List.foldl_append]
    rw [← hok j hj, hend, (settled_later (plain rs) _ hlater hrun.welcoming).1]
  refine ⟨p, ⟨⟨fun hin => ?_, fun hin => ?_⟩, hkey, ?_, ?_, fun hf q => ?_, fun t ht => ?_⟩⟩
  · rcases (hrun.members _).mp hin with hold | hin
    · exact hr.1 (hheld.1 ▸ hold)
    · exact hentered false hin
  · rcases (hrun.shelves _).mp hin with hold | hin
    · exact hr.2 (hheld.2.1 ▸ hold)
    · exact hentered true hin
  · by_contra habove
    obtain ⟨q, hpre, -, hq⟩ := PathTrie.exists_taskAbove habove
    exact (hclear (q := q) (fun he => hq (by rw [he]))).2.2 hq hpre
  · by_contra hne
    exact (hclear hne).1 rfl
  · by_contra hne
    exact (hclear hne).2.1 hf (List.prefix_append p q)
  · subst ht
    obtain ⟨ids, hids, -⟩ := h.deps t (List.mem_of_getElem? hi)
    refine ⟨ids, hids, fun x hx => (hrun.members x).mpr (.inr ?_)⟩
    obtain ⟨j, hj, t', ht', rfl⟩ := h.dep_prior hl hi (x := x) (by rw [hids]; exact List.mem_map_of_mem hx)
    exact ⟨j, hj, _, plain_get.mpr ht', hdone hj, rfl, rfl⟩

theorem Fitting.all_ok (h : g.Fitting s rs) (hg : g.Welcoming fun _ => []) (hi : i < rs.length) :
    (g.registered (plain rs)).2[i]? = some (.ok ()) := by
  have hprefix (l rest : List ℕ) (hl : Batch.order rs = l ++ rest) : ∀ j ∈ l,
    (g.registered (plain rs)).2[j]? = some (.ok ()) := by
    induction l using List.reverseRecOn generalizing rest with
    | nil => exact fun j hj => by cases hj
    | append_singleton l i ih =>
      rw [List.append_assoc, List.singleton_append] at hl
      have hok := ih (i :: rest) hl
      intro j hj
      rcases List.mem_append.mp hj with hj | hj
      · exact hok j hj
      obtain rfl := List.mem_singleton.mp hj
      have hlt : j < rs.length := by
        have hin : j ∈ Batch.order rs := hl ▸ List.mem_append_right _ List.mem_cons_self
        exact List.mem_range.mp ((Batch.order_perm rs).mem_iff.mp hin)
      have hget : rs[j]? = some rs[j] := List.getElem?_eq_getElem hlt
      obtain ⟨p, hadmits⟩ := h.admits hg hl hget hok
      have hplain : j < (plain rs).length := by simpa [plain] using hlt
      have hbefore := hg.before hplain
      rw [(registered_after hg (plain_get.mpr hget)).1, hadmits.registerOne hbefore.listed none]
  exact hprefix (Batch.order rs) [] (List.append_nil _).symm i (Batch.mem_order rs hi)

def listing (rs : List (Registration τ)) : List (TaskPath × TaskId) :=
  rs.filterMap fun r => r.key.map fun key => (key.path, r.id)

omit [Task τ] in
theorem Fitting.listing_ids (h : g.Fitting s rs) : (listing rs).map Prod.snd = rs.map Registration.id := by
  have hkeyed := h.keyed
  clear h
  induction rs with
  | nil => rfl
  | cons r rs ih =>
    obtain ⟨⟨-, p, -, hkey⟩, hall⟩ := List.forall_mem_cons.mp hkeyed
    have hcons : listing (r :: rs) = (p, r.id) :: listing rs := by
      unfold listing
      rw [List.filterMap_cons, hkey]
      rfl
    rw [hcons, List.map_cons, List.map_cons, ih hall]

omit [Task τ] in
theorem mem_listing {p : TaskPath} {x : TaskId} (h : g.Fitting s rs) :
    (p, x) ∈ listing rs ↔ ∃ r ∈ rs, r.key = some ⟨s, p⟩ ∧ r.id = x := by
  unfold listing
  rw [List.mem_filterMap]
  constructor
  · rintro ⟨r, hr, he⟩
    obtain ⟨-, q, -, hkey⟩ := h.keyed r hr
    rw [hkey] at he
    obtain ⟨rfl, rfl⟩ := Prod.mk.inj (Option.some.inj he)
    exact ⟨r, hr, hkey, rfl⟩
  · rintro ⟨r, hr, hkey, rfl⟩
    exact ⟨r, hr, by rw [hkey]; rfl⟩

omit [Task τ] in
theorem Fitting.arrayed (h : g.Fitting s rs) (hg : g.Listed fun _ => []) :
    PathTrie.Arrayed ((listing rs).map Prod.fst) ((rs.foldl holdPlace g).trie s) := by
  have hstart : PathTrie.Arrayed [] (g.trie s) := by
    have hnone (c : TaskPath) : (g.trie s).names c = [] := by
      refine List.eq_nil_iff_forall_not_mem.mpr fun x hx => ?_
      obtain ⟨q, hq⟩ := (hg.held s).full (PathTrie.mem_names.mp hx) (by simp)
      exact hq (h.vacant _)
    refine ⟨List.forall_mem_nil _, fun c x hx => ?_, fun c => ?_⟩
    · rw [hnone] at hx
      cases hx
    · rw [hnone]
      exact .nil
  have hkeyed := h.keyed
  have hvacant := h.vacant
  clear h hg
  suffices hall : ∀ paths, PathTrie.Arrayed paths (g.trie s) →
      PathTrie.Arrayed (paths ++ (listing rs).map Prod.fst) ((rs.foldl holdPlace g).trie s) from hall [] hstart
  clear hstart
  induction rs generalizing g with
  | nil =>
    intro paths hpaths
    rwa [show listing ([] : List (Registration τ)) = [] from rfl, List.map_nil, List.append_nil]
  | cons r rs ih =>
    intro paths hpaths
    obtain ⟨⟨hlast, p, -, hkey⟩, hall⟩ := List.forall_mem_cons.mp hkeyed
    have hcons : listing (r :: rs) = (p, r.id) :: listing rs := by
      unfold listing
      rw [List.filterMap_cons, hkey]
      rfl
    have habove : (g.trie s).taskAbove p = none := by
      by_contra hne
      obtain ⟨q, -, -, hq⟩ := PathTrie.exists_taskAbove hne
      exact hq (by rw [hvacant])
    have hnext := ih hall (g := g.holdPlace r) (fun q => by rw [content_holdPlace]; exact hvacant q) (paths ++ [p]) (by
      rw [trie_holdPlace hkey, if_pos rfl, hlast]
      exact hpaths.place habove)
    rw [hcons, List.map_cons, List.foldl_cons]
    rwa [List.append_assoc, List.singleton_append] at hnext

theorem Fitting.registerTasks_eq (h : g.Fitting s rs) (hg : g.Welcoming fun _ => []) :
    g.registerTasks (plain rs) = g.registered (plain rs) := by
  have hdrop (es : List (Registration τ × Except RegisterError Unit)) (hes : ∀ e ∈ es, e.2 = .ok ()) (g : Graph τ) :
      es.foldl dropPlace g = g := by
    refine Fold.foldl_invariant (P := fun g' => g' = g) (fun g' hg' e he => ?_) rfl
    unfold dropPlace
    rw [hes e he]
    split
    · rename_i heq
      cases heq
    · exact hg'
  rw [Graph.registerTasks_eq, hdrop]
  intro e he
  obtain ⟨i, hi, rfl⟩ := List.getElem_of_mem he
  rw [List.length_zip, plain_snd] at hi
  have hok := h.all_ok hg (i := i) (by omega)
  rw [List.getElem?_eq_getElem (by omega)] at hok
  rw [List.getElem_zip]
  exact Option.some.inj hok

theorem Fitting.whole (h : g.Fitting s rs) (hg : g.Welcoming fun _ => []) :
    (g.registerTasks (plain rs)).2 = rs.map (fun _ => .ok ()) ∧
    (∀ t (ids : List TaskId), .task t ∈ rs → t.def'.deps = ids.map TaskSelector.id →
      (g.registerTasks (plain rs)).1.edges t.taskId = ids.toFinset) ∧
    ((((g.registerTasks (plain rs)).1.trie s).nodes TaskPath.root).Perm (listing rs) ∧
      (((g.registerTasks (plain rs)).1.trie s).nodes TaskPath.root).Pairwise fun a b =>
        GroupedBefore ((listing rs).map Prod.fst) a.1 b.1) := by
  have hdone := enrolled hg (plain rs)
  have hrun := enrolling_before hg (plain rs) (List.append_nil _).symm
  rw [show (Batch.order ((plain rs).map Prod.snd)).foldl (registerAt (plain rs)) _ = g.registered (plain rs) from rfl] at hrun
  rw [plain_snd] at hrun
  rw [h.registerTasks_eq hg] at hdone ⊢
  have hlen : (g.registered (plain rs)).2.length = rs.length := by
    rw [hdone.length]
    exact List.length_map _
  have hlisted := hrun.registering.listed
  have hmem (p : TaskPath) (x : TaskId) : (p, x) ∈ ((g.registered (plain rs)).1.trie s).nodes TaskPath.root ↔
    (p, x) ∈ listing rs := by
    have hcontent : (p, x) ∈ ((g.registered (plain rs)).1.trie s).nodes TaskPath.root ↔
        ((((g.registered (plain rs)).1.trie s).content p).1 <|> (((g.registered (plain rs)).1.trie s).content p).2) = some x ∧
          p ≠ [] := by
      rw [show ((g.registered (plain rs)).1.trie s).nodes TaskPath.root =
        ((g.registered (plain rs)).1.trie s).root.collectNodes [] from rfl,
          TrieNode.mem_collectNodes (hlisted.held s).named]
      constructor
      · rintro ⟨q, spot, hq, rfl, hid, hne⟩
        rw [PathTrie.content_of_at hq]
        exact ⟨hid, hne⟩
      · rintro ⟨hid, hne⟩
        refine ⟨p, _, PathTrie.at_of_content rfl (fun he => ?_), rfl, hid, hne⟩
        rw [he] at hid
        cases hid
    have hholds {r : Registration τ} (hr : r ∈ rs) (hkey : r.key = some ⟨s, p⟩) :
        ((((g.registered (plain rs)).1.trie s).content p).1 <|> (((g.registered (plain rs)).1.trie s).content p).2) = some r.id := by
      obtain ⟨j, hj, rfl⟩ := List.getElem_of_mem hr
      have hin := hrun.registering.held j ((Batch.order_perm rs).mem_iff.mpr (List.mem_range.mpr hj)) _
        (plain_get.mpr (List.getElem?_eq_getElem hj)) (h.all_ok hg hj)
      generalize rs[j] = r at hkey hin
      cases r with
      | task t =>
        obtain ⟨q, hq, he⟩ := Option.map_eq_some_iff.mp hkey
        obtain ⟨rfl, rfl⟩ := TaskKey.mk.inj he
        have hhome : ((g.registered (plain rs)).1.tasks.lookup t.taskId).map TaskHandle.home = some
          (t.def'.space, some q) := by
          rw [← hq]
          exact hin
        rw [(hlisted.tasks _ _ _).mpr hhome]
        rfl
      | folder d =>
        obtain ⟨rfl, rfl⟩ := TaskKey.mk.inj (Option.some.inj hkey)
        have hfolder := (hlisted.folders _ _ _).mpr hin
        have hone := (hlisted.held d.space).one d.path
        cases hc : ((g.registered (plain rs)).1.trie d.space).content d.path with
        | mk a b =>
          rw [hc] at hfolder hone
          obtain rfl : b = some d.id := hfolder
          cases a with
          | none => rfl
          | some a => exact absurd rfl (hone a d.id)
    rw [hcontent, mem_listing h]
    constructor
    · rintro ⟨hid, -⟩
      have hne : ((g.registered (plain rs)).1.trie s).content p ≠ (none, none) := fun he => by rw [he] at hid; cases hid
      obtain ⟨j, -, r, hr, hkey, -⟩ := h.found_before hg hrun hne
      have hin := List.mem_of_getElem? hr
      exact ⟨r, hin, hkey, Option.some.inj ((hholds hin hkey).symm.trans hid)⟩
    · rintro ⟨r, hr, hkey, rfl⟩
      obtain ⟨-, q, hq, hkey'⟩ := h.keyed r hr
      obtain ⟨-, rfl⟩ := TaskKey.mk.inj (Option.some.inj (hkey.symm.trans hkey'))
      exact ⟨hholds hr hkey, hq⟩
  refine ⟨?_, fun t ids ht hids => ?_, ?_, ?_⟩
  · refine List.ext_getElem (by rw [hlen, List.length_map]) fun i hi _ => ?_
    have hok := h.all_ok hg (i := i) (by omega)
    rw [List.getElem?_eq_getElem hi] at hok
    rw [List.getElem_map, Option.some.inj hok]
  · obtain ⟨i, hi, hget⟩ := List.getElem_of_mem ht
    have he := plain_get.mpr ((List.getElem?_eq_getElem hi).trans (congrArg some hget))
    obtain ⟨-, hdeps⟩ := hdone.accepted i none (.task t) he (h.all_ok hg hi)
    obtain ⟨deps, hres, hedges⟩ := hdeps t rfl
    rw [hedges]
    rw [hids] at hres
    have hthere (x : TaskId) (hx : x ∈ ids) : x ∈ (g.before (plain rs) i).1.tasks :=
      mem_of_resolved_id hres (List.mem_map_of_mem hx)
    obtain ⟨deps', hres', heq⟩ := resolveDeps_ids hthere
    rw [Except.ok.inj (hres.symm.trans hres'), heq]
  · refine (List.perm_ext_iff_of_nodup ?_ ?_).mpr fun e => hmem e.1 e.2
    · exact (hlisted.nodup_ids s TaskPath.root).of_map _
    · refine List.Nodup.of_map Prod.snd ?_
      rw [h.listing_ids]
      exact h.ids
  · refine PathTrie.nodes_grouped (hlisted.held s).named fun c => ?_
    have hnames : ((g.registered (plain rs)).1.trie s).names c = ((rs.foldl holdPlace g).trie s).names c := by
      unfold PathTrie.names
      rw [hrun.names]
    rw [hnames]
    exact (h.arrayed hg.listed).sorted c

end batch

end Graph

end Dekit
