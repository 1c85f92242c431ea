import Dekit.Sameness

/-! `reload.rs`: the three-way merge of a task's definition, key by key. -/

namespace Dekit

def splitOnce (key : String) : Option (String × String) :=
  match key.toList.dropWhile (· ≠ '.') with
  | [] => none
  | _ :: rest => some (String.ofList (key.toList.takeWhile (· ≠ '.')), String.ofList rest)

/-- The variable of the environment a key names, if it names one. -/
def envVar (key : String) : Option String :=
  match splitOnce key with
  | some (top, var) => if top = "env" then some var else none
  | none => none

def insertEntry (entries : List (String × Value)) (key : String) (value : Value) :
    List (String × Value) :=
  if (entries.map Prod.fst).contains key then
    entries.map (fun e => if e.1 = key then (key, value) else e)
  else entries ++ [(key, value)]

namespace TaskSpec

def valueAt (s : TaskSpec) (key : String) : Option Value :=
  match envVar key with
  | some var => (asMapping (s.get "env")).lookup var
  | none => s.get key

def setAt (s : TaskSpec) (key : String) (value : Option Value) : TaskSpec :=
  match envVar key with
  | some var =>
    let env := asMapping (s.get "env")
    let env := match value with
      | some value => insertEntry env var value
      | none => env.filter (fun e => e.1 ≠ var)
    s.set "env" (if env.isEmpty then none else some (.mapping env))
  | none => s.set key value

def strings (s : TaskSpec) (key : String) : List String :=
  match s.get key with
  | some (.sequence items) => items.filterMap fun
    | .string s => some s
    | _ => none
  | _ => []

def deps (s : TaskSpec) : List String := s.strings "deps"

end TaskSpec

/-- A key a reload's config changed. -/
structure Field where
  key : String
  base : Option Value
  here : Option Value
  config : Option Value
  conflict : Bool
  take : Bool

/-- The keys that differ from the base in the config, then those that differ here only. -/
def mergeKeys (base here config : TaskSpec) : List String :=
  (base.changedKeys here).foldl (fun keys key => if keys.contains key then keys else keys ++ [key])
    (base.changedKeys config)

def mergeKey (base here config : TaskSpec) (key : String) : Option Field :=
  let (b, h, c) := (base.valueAt key, here.valueAt key, config.valueAt key)
  match !sameValue c b, !sameValue h b with
  | true, false => some ⟨key, b, h, c, false, true⟩
  | false, true => none
  | true, true => if sameValue h c then none else some ⟨key, b, h, c, true, false⟩
  | false, false => none

def merge (base here config : TaskSpec) : List Field × Bool :=
  let keys := mergeKeys base here config
  (keys.filterMap (mergeKey base here config),
    keys.any fun key => sameValue (config.valueAt key) (base.valueAt key) &&
      !sameValue (here.valueAt key) (base.valueAt key))

/-- `listed_here` in `steps`: deps on tasks listed elsewhere here are on where they are. -/
def listedHere (moved : String → Option String) (spec : TaskSpec) : TaskSpec :=
  if spec.deps.any (fun dep => (moved dep).isSome) then
    spec.setDeps (spec.deps.map fun dep => (moved dep).getD dep)
  else spec

def takeField (moved : String → Option String) (config spec : TaskSpec) (field : Field) : TaskSpec :=
  let spec := spec.setAt field.key (config.valueAt field.key)
  if field.key = "deps" then listedHere moved spec else spec

/-- The fields marked to take, taken one after another. -/
def takeFields (moved : String → Option String) (config here : TaskSpec) (fields : List Field) :
    TaskSpec :=
  (fields.filter (·.take)).foldl (takeField moved config) here

/-! Keys of the environment. -/

theorem envVar_iff (key var : String) : envVar key = some var ↔ key = "env." ++ var := by
  constructor
  · intro h
    simp only [envVar, splitOnce] at h
    cases hd : key.toList.dropWhile (· ≠ '.') with
    | nil =>
      rw [hd] at h
      cases h
    | cons c rest =>
      have hc : c = '.' := by
        have hhead := List.head?_dropWhile_not (· ≠ '.') key.toList
        rw [hd] at hhead
        simpa using hhead
      rw [hd] at h
      simp only [Option.ite_none_right_eq_some, Option.some.injEq] at h
      obtain ⟨htop, rfl⟩ := h
      have htop' : key.toList.takeWhile (· ≠ '.') = "env".toList := by rw [← htop, String.toList_ofList]
      have hcat := List.takeWhile_append_dropWhile (p := (· ≠ '.')) (l := key.toList)
      rw [hd, htop', hc] at hcat
      apply String.toList_inj.mp
      simpa using hcat.symm
  · rintro rfl
    simp [envVar, splitOnce]

theorem envVar_env : envVar "env" = none := by decide

/-! A lookup after a change at one key. -/

theorem lookup_insertEntry (entries : List (String × Value)) (key : String) (value : Value) (x : String) :
    (insertEntry entries key value).lookup x = if x = key then some value else entries.lookup x := by
  unfold insertEntry
  split
  · next h =>
    rw [Assoc.lookup_set]
    refine ite_congr rfl (fun hx => ?_) fun _ => rfl
    subst hx
    cases hl : entries.lookup x with
    | none => exact absurd (by simpa using h) (Assoc.notMem_keys hl)
    | some v => rfl
  · next h =>
    have hnone : entries.lookup key = none := by
      cases hl : entries.lookup key with
      | none => rfl
      | some v => exact absurd (by simpa using ⟨_, Assoc.mem_of_lookup hl⟩) h
    rw [List.lookup_append]
    by_cases hx : x = key
    · subst hx
      simp [hnone]
    · have hbeq : (x == key) = false := beq_false_of_ne hx
      simp [hx, List.lookup_cons, hbeq]

theorem nodup_insertEntry {entries : List (String × Value)} (hn : (entries.map Prod.fst).Nodup)
    (key : String) (value : Value) : ((insertEntry entries key value).map Prod.fst).Nodup := by
  unfold insertEntry
  split
  · rwa [Assoc.keys_set]
  · next h =>
    rw [List.map_append]
    exact List.Nodup.append hn (List.nodup_singleton _) (by simpa using h)

theorem mem_insertEntry {entries : List (String × Value)} {key : String} {value : Value}
    {e : String × Value} (h : e ∈ insertEntry entries key value) : e = (key, value) ∨ e ∈ entries := by
  unfold insertEntry at h
  split at h
  · obtain ⟨e', he, rfl⟩ := List.mem_map.mp h
    by_cases hk : e'.1 = key
    · exact .inl (by simp [hk])
    · exact .inr (by simpa [hk] using he)
  · simpa [or_comm] using h

namespace TaskSpec

theorem set_some_perm (s : TaskSpec) (key : String) (value : Value) :
    (s.set key (some value)).entries.Perm (insertEntry s.entries key value) := by
  unfold set insertEntry
  simp only
  split
  · exact .refl _
  · split
    · exact .refl _
    · split
      · exact .refl _
      · exact List.perm_insertionSort (fun a b : String × Value => rank a.1 ≤ rank b.1) _

/-- Each key once, at every level, and none that reads as a variable of the environment. -/
structure Keyed (s : TaskSpec) : Prop where
  nodup : (s.entries.map Prod.fst).Nodup
  values : ∀ e ∈ s.entries, e.2.Keyed
  plain : ∀ e ∈ s.entries, envVar e.1 = none

namespace Keyed

theorem set {s : TaskSpec} (h : s.Keyed) (key : String) (value : Option Value)
    (hkey : envVar key = none) (hv : ∀ v, value = some v → v.Keyed) : (s.set key value).Keyed := by
  cases value with
  | none =>
    refine ⟨h.nodup.sublist (List.Sublist.map _ List.filter_sublist), ?_, ?_⟩
    · exact fun e he => h.values e (List.mem_of_mem_filter he)
    · exact fun e he => h.plain e (List.mem_of_mem_filter he)
  | some value =>
    have hp := s.set_some_perm key value
    refine ⟨(hp.map Prod.fst).nodup_iff.mpr (nodup_insertEntry h.nodup key value), ?_, ?_⟩
    · intro e he
      obtain rfl | he := mem_insertEntry (hp.mem_iff.mp he)
      · exact hv value rfl
      · exact h.values e he
    · intro e he
      obtain rfl | he := mem_insertEntry (hp.mem_iff.mp he)
      · exact hkey
      · exact h.plain e he

theorem get {s : TaskSpec} (h : s.Keyed) {key : String} {v : Value} (hg : s.get key = some v) : v.Keyed :=
  h.values _ (Assoc.mem_of_lookup hg)

theorem env {s : TaskSpec} (h : s.Keyed) :
    ((asMapping (s.get "env")).map Prod.fst).Nodup ∧ ∀ e ∈ asMapping (s.get "env"), e.2.Keyed := by
  cases hg : s.get "env" with
  | none => simp [asMapping]
  | some v =>
    have hk := h.get hg
    cases v with
    | mapping es => exact ⟨hk.1, (keyedEntries_iff es).mp hk.2⟩
    | _ => simp [asMapping]

theorem valueAt {s : TaskSpec} (h : s.Keyed) {key : String} {v : Value} (hv : s.valueAt key = some v) :
    v.Keyed := by
  unfold TaskSpec.valueAt at hv
  cases hvar : envVar key with
  | none =>
    rw [hvar] at hv
    exact h.get hv
  | some var =>
    rw [hvar] at hv
    exact h.env.2 _ (Assoc.mem_of_lookup hv)

end Keyed

theorem get_set {s : TaskSpec} (h : s.Keyed) (key : String) (value : Option Value) (x : String) :
    (s.set key value).get x = if x = key then value else s.get x := by
  cases value with
  | none => exact Assoc.lookup_erase _ _ _
  | some value =>
    have hp := s.set_some_perm key value
    have hn := (hp.map Prod.fst).nodup_iff.mpr (nodup_insertEntry h.nodup key value)
    rw [get, ← Assoc.lookup_perm hn hp, lookup_insertEntry]
    rfl

theorem asMapping_get_env (env : List (String × Value)) :
    asMapping (if env.isEmpty then none else some (.mapping env)) = env := by
  cases env <;> rfl

theorem setAt_env (s : TaskSpec) {key var : String} (hvar : envVar key = some var) (value : Option Value) :
    ∃ env : List (String × Value),
      s.setAt key value = s.set "env" (if env.isEmpty then none else some (.mapping env)) ∧
      (∀ x, env.lookup x = if x = var then value else (asMapping (s.get "env")).lookup x) ∧
      (s.Keyed → (∀ v, value = some v → v.Keyed) →
        (env.map Prod.fst).Nodup ∧ ∀ e ∈ env, e.2.Keyed) := by
  unfold setAt
  rw [hvar]
  cases value with
  | none =>
    refine ⟨_, rfl, fun x => Assoc.lookup_erase _ _ _, fun h _ => ⟨?_, ?_⟩⟩
    · exact h.env.1.sublist (List.Sublist.map _ List.filter_sublist)
    · exact fun e he => h.env.2 e (List.mem_of_mem_filter he)
  | some value =>
    refine ⟨_, rfl, fun x => lookup_insertEntry _ _ _ _, fun h hv => ⟨nodup_insertEntry h.env.1 _ _, ?_⟩⟩
    intro e he
    obtain rfl | he := mem_insertEntry he
    · exact hv value rfl
    · exact h.env.2 e he

theorem Keyed.setAt {s : TaskSpec} (h : s.Keyed) (key : String) (value : Option Value)
    (hv : ∀ v, value = some v → v.Keyed) : (s.setAt key value).Keyed := by
  cases hvar : envVar key with
  | none =>
    unfold TaskSpec.setAt
    rw [hvar]
    exact h.set key value hvar hv
  | some var =>
    obtain ⟨env, hset, -, hkeyed⟩ := s.setAt_env hvar value
    rw [hset]
    refine h.set "env" _ envVar_env fun v hv' => ?_
    split at hv'
    · cases hv'
    · cases hv'
      exact ⟨(hkeyed h hv).1, (keyedEntries_iff env).mpr (hkeyed h hv).2⟩

theorem valueAt_setAt {s : TaskSpec} (h : s.Keyed) {key x : String} (hkey : key ≠ "env") (hx : x ≠ "env")
    (value : Option Value) : (s.setAt key value).valueAt x = if x = key then value else s.valueAt x := by
  cases hvar : envVar key with
  | none =>
    have hset : s.setAt key value = s.set key value := by
      unfold setAt
      rw [hvar]
    rw [hset]
    unfold valueAt
    cases hvar' : envVar x with
    | none => exact get_set h key value x
    | some var =>
      have hne : x ≠ key := by
        rintro rfl
        rw [hvar] at hvar'
        cases hvar'
      rw [if_neg hne]
      simp only
      rw [get_set h, if_neg (Ne.symm hkey)]
  | some var =>
    obtain ⟨env, hset, hlookup, -⟩ := s.setAt_env hvar value
    rw [hset]
    unfold valueAt
    cases hvar' : envVar x with
    | none =>
      have hne : x ≠ key := by
        rintro rfl
        rw [hvar] at hvar'
        cases hvar'
      rw [if_neg hne]
      simp only
      rw [get_set h, if_neg hx]
    | some var' =>
      simp only
      rw [get_set h, if_pos rfl, asMapping_get_env, hlookup]
      have hiff : var' = var ↔ x = key := by
        constructor
        · rintro rfl
          rw [(envVar_iff _ _).mp hvar, (envVar_iff _ _).mp hvar']
        · rintro rfl
          exact Option.some.inj (hvar'.symm.trans hvar)
      by_cases hxk : x = key
      · rw [if_pos hxk, if_pos (hiff.mpr hxk)]
      · rw [if_neg hxk, if_neg (fun h => hxk (hiff.mp h))]

end TaskSpec

/-! Sameness of what may be missing. -/

theorem sameValue_refl {a : Option Value} (h : ∀ v, a = some v → v.Keyed) : sameValue a a := by
  cases a with
  | none => rfl
  | some v => exact v.same_refl (h v rfl)

theorem sameValue_symm {a b : Option Value} (ha : ∀ v, a = some v → v.Keyed)
    (hb : ∀ v, b = some v → v.Keyed) (h : sameValue a b) : sameValue b a := by
  cases a <;> cases b <;> simp only [sameValue, Bool.false_eq_true] at h ⊢
  exact Value.same_symm _ _ (ha _ rfl) (hb _ rfl) h

theorem sameValue_trans {a b c : Option Value} (h : sameValue a b) (h' : sameValue b c) : sameValue a c := by
  cases a <;> cases b <;> cases c <;> simp only [sameValue, Bool.false_eq_true] at h h' ⊢
  exact Value.same_trans _ _ _ h h'

namespace TaskSpec

theorem same_env {a b : TaskSpec} (ha : a.Keyed) (h : sameValue (a.get "env") (b.get "env"))
    (var : String) : sameValue ((asMapping (a.get "env")).lookup var) ((asMapping (b.get "env")).lookup var) := by
  have hna := ha.env.1
  cases hga : a.get "env" with
  | none => cases hgb : b.get "env" <;> simp_all [sameValue, asMapping]
  | some v =>
    cases hgb : b.get "env" with
    | none => simp [hga, hgb, sameValue] at h
    | some w =>
      rw [hga, hgb, sameValue] at h
      rw [hga] at hna
      cases v <;> cases w <;> simp only [Value.same, Bool.false_eq_true] at h <;> try rfl
      rename_i es others
      simp only [asMapping, Bool.and_eq_true, beq_iff_eq, sameEntries_iff] at h hna ⊢
      obtain ⟨hlen, hall⟩ := h
      cases hl : es.lookup var with
      | some x =>
        obtain ⟨y, hy, hxy⟩ := hall _ (Assoc.mem_of_lookup hl)
        rw [hy]
        exact hxy
      | none =>
        cases hl' : others.lookup var with
        | none => rfl
        | some y =>
          refine absurd ?_ (Assoc.notMem_keys hl)
          refine Value.mem_keys_of_length hna hlen (fun e he => ?_)
            (List.mem_map.mpr ⟨_, Assoc.mem_of_lookup hl', rfl⟩)
          obtain ⟨y, hy, -⟩ := hall e he
          exact List.mem_map.mpr ⟨_, Assoc.mem_of_lookup hy, rfl⟩

theorem mem_keys_lookup (es : List (String × Value)) (key : String) :
    key ∈ es.map Prod.fst ↔ es.lookup key ≠ none := by
  constructor
  · exact fun h hl => Assoc.notMem_keys hl h
  · intro h
    obtain ⟨v, hv⟩ := Option.ne_none_iff_exists'.mp h
    exact List.mem_map.mpr ⟨_, Assoc.mem_of_lookup hv, rfl⟩

theorem ne_none_of_not_same {a b : Option Value} (h : ¬ sameValue a b) : a ≠ none ∨ b ≠ none := by
  by_contra hnone
  push Not at hnone
  exact h (by rw [hnone.1, hnone.2]; rfl)

theorem mem_changedVars {a b : List (String × Value)} {var : String} :
    var ∈ changedVars a b ↔ ¬ sameValue (a.lookup var) (b.lookup var) := by
  unfold changedVars
  rw [List.mem_eraseDups, List.mem_filter, List.map_append, List.mem_append, mem_keys_lookup,
    mem_keys_lookup]
  simp only [Bool.not_eq_true', Bool.not_eq_true, and_iff_right_iff_imp]
  exact fun h => ne_none_of_not_same (by simp [h])

theorem mem_changedKeys {a b : TaskSpec} (ha : a.Keyed) (hb : b.Keyed) (key : String) :
    key ∈ a.changedKeys b ↔ key ≠ "env" ∧ ¬ sameValue (a.valueAt key) (b.valueAt key) := by
  have hnames (name : String) : name ∈ ((a.entries ++ b.entries).map Prod.fst).eraseDups ↔
      a.get name ≠ none ∨ b.get name ≠ none := by
    rw [List.mem_eraseDups, List.map_append, List.mem_append, mem_keys_lookup, mem_keys_lookup]
    rfl
  have hplain {name : String} (h : a.get name ≠ none ∨ b.get name ≠ none) : envVar name = none := by
    rcases h with h | h
    · obtain ⟨v, hv⟩ := Option.ne_none_iff_exists'.mp h
      exact ha.plain _ (Assoc.mem_of_lookup hv)
    · obtain ⟨v, hv⟩ := Option.ne_none_iff_exists'.mp h
      exact hb.plain _ (Assoc.mem_of_lookup hv)
  unfold changedKeys
  rw [List.mem_insertionSort]
  simp only [List.mem_flatMap, hnames]
  constructor
  · rintro ⟨name, hname, hkey⟩
    split at hkey
    · cases hkey
    · split at hkey
      · obtain ⟨var, hvar, rfl⟩ := List.mem_map.mp hkey
        have henv := (envVar_iff _ var).mpr rfl
        refine ⟨?_, ?_⟩
        · intro h
          rw [h, envVar_env] at henv
          cases henv
        · next hn =>
          subst hn
          unfold valueAt
          rw [henv]
          exact mem_changedVars.mp hvar
      · next hsame hne =>
        obtain rfl := List.mem_singleton.mp hkey
        refine ⟨hne, ?_⟩
        unfold valueAt
        rw [hplain hname]
        exact hsame
  · rintro ⟨hne, hsame⟩
    cases hvar : envVar key with
    | none =>
      unfold valueAt at hsame
      rw [hvar] at hsame
      refine ⟨key, ne_none_of_not_same hsame, ?_⟩
      rw [if_neg hsame, if_neg hne]
      exact List.mem_singleton_self key
    | some var =>
      unfold valueAt at hsame
      rw [hvar] at hsame
      have henv : ¬ sameValue (a.get "env") (b.get "env") := fun h => hsame (same_env ha h var)
      refine ⟨"env", ne_none_of_not_same henv, ?_⟩
      rw [if_neg henv, if_pos rfl]
      exact List.mem_map.mpr ⟨var, mem_changedVars.mpr hsame, ((envVar_iff _ _).mp hvar).symm⟩

end TaskSpec

theorem valueAt_foldl {ι : Type} {step : TaskSpec → ι → TaskSpec} {key : ι → String} {config : TaskSpec}
    {x : String}
    (hstep : ∀ s i, s.Keyed → key i ≠ "env" → (step s i).Keyed ∧
      (step s i).valueAt x = if x = key i then config.valueAt x else s.valueAt x)
    (is : List ι) (hne : ∀ i ∈ is, key i ≠ "env") {s : TaskSpec} (hs : s.Keyed) :
    (is.foldl step s).Keyed ∧
      (is.foldl step s).valueAt x = if x ∈ is.map key then config.valueAt x else s.valueAt x := by
  induction is generalizing s with
  | nil => exact ⟨hs, by simp⟩
  | cons i is ih =>
    obtain ⟨hkeyed, hvalue⟩ := hstep s i hs (hne i (by simp))
    obtain ⟨hrest, hfound⟩ := ih (fun j hj => hne j (List.mem_cons_of_mem _ hj)) hkeyed
    refine ⟨hrest, ?_⟩
    rw [List.foldl_cons, hfound, hvalue, List.map_cons]
    by_cases hx : x = key i
    · simp [hx]
    · by_cases hmem : x ∈ is.map key <;> simp [hx, hmem]

theorem setAt_step {b : TaskSpec} (hb : b.Keyed) {x : String} (hx : x ≠ "env") (s : TaskSpec) (key : String)
    (hs : s.Keyed) (hkey : key ≠ "env") : (s.setAt key (b.valueAt key)).Keyed ∧
      (s.setAt key (b.valueAt key)).valueAt x = if x = key then b.valueAt x else s.valueAt x := by
  refine ⟨hs.setAt key _ fun v hv => hb.valueAt hv, ?_⟩
  rw [TaskSpec.valueAt_setAt hs hkey hx]
  exact ite_congr rfl (fun h => by rw [h]) fun _ => rfl

theorem changedKeys_foldl_setAt {a b : TaskSpec} (ha : a.Keyed) (hb : b.Keyed) :
    ((a.changedKeys b).foldl (fun s key => s.setAt key (b.valueAt key)) a).changedKeys b = [] := by
  have hne : ∀ key ∈ a.changedKeys b, key ≠ "env" := fun key h => ((TaskSpec.mem_changedKeys ha hb key).mp h).1
  rw [List.eq_nil_iff_forall_not_mem]
  intro x hx
  have hkeyed := (valueAt_foldl (x := "label") (setAt_step hb (by decide)) _ hne ha).1
  obtain ⟨hxe, hdiff⟩ := (TaskSpec.mem_changedKeys hkeyed hb x).mp hx
  rw [(valueAt_foldl (setAt_step hb hxe) _ hne ha).2, List.map_id'] at hdiff
  split at hdiff
  · exact hdiff (sameValue_refl fun v hv => hb.valueAt hv)
  · next hmem => exact hmem ((TaskSpec.mem_changedKeys ha hb x).mpr ⟨hxe, hdiff⟩)

/-! The fields of a merge. -/

theorem mem_mergeKeys {base here config : TaskSpec} {key : String} :
    key ∈ mergeKeys base here config ↔ key ∈ base.changedKeys config ∨ key ∈ base.changedKeys here := by
  unfold mergeKeys
  generalize base.changedKeys config = keys
  induction base.changedKeys here generalizing keys with
  | nil => simp
  | cons k ks ih =>
    rw [List.foldl_cons, ih, List.mem_cons]
    split
    · next hk =>
      have hk' : k ∈ keys := by simpa using hk
      constructor
      · exact Or.imp_right .inr
      · rintro (h | rfl | h)
        · exact .inl h
        · exact .inl hk'
        · exact .inr h
    · rw [List.mem_append, List.mem_singleton, or_assoc]

section

variable {base here config : TaskSpec} (hb : base.Keyed) (hh : here.Keyed) (hc : config.Keyed)
include hb hh hc

theorem mem_merge (f : Field) : f ∈ (merge base here config).1 ↔
    f.key ≠ "env" ∧ ¬ sameValue (config.valueAt f.key) (base.valueAt f.key) ∧
      ¬ sameValue (here.valueAt f.key) (config.valueAt f.key) ∧
      f.base = base.valueAt f.key ∧ f.here = here.valueAt f.key ∧ f.config = config.valueAt f.key ∧
      f.conflict = !sameValue (here.valueAt f.key) (base.valueAt f.key) ∧
      f.take = sameValue (here.valueAt f.key) (base.valueAt f.key) := by
  have hbv (key : String) : ∀ v, base.valueAt key = some v → v.Keyed := fun v hv => hb.valueAt hv
  have hhv (key : String) : ∀ v, here.valueAt key = some v → v.Keyed := fun v hv => hh.valueAt hv
  have hcv (key : String) : ∀ v, config.valueAt key = some v → v.Keyed := fun v hv => hc.valueAt hv
  simp only [merge, List.mem_filterMap, mem_mergeKeys, TaskSpec.mem_changedKeys hb hc,
    TaskSpec.mem_changedKeys hb hh]
  constructor
  · rintro ⟨key, hkey, hf⟩
    have hne : key ≠ "env" := hkey.elim (·.1) (·.1)
    unfold mergeKey at hf
    cases hcb : sameValue (config.valueAt key) (base.valueAt key) <;>
      cases hhb : sameValue (here.valueAt key) (base.valueAt key) <;>
      simp only [hcb, hhb, Bool.not_true, Bool.not_false] at hf
    · split at hf
      · cases hf
      · next hhc =>
        cases hf
        exact ⟨hne, by simp [hcb], hhc, rfl, rfl, rfl, by simp [hhb], by simp [hhb]⟩
    · cases hf
      refine ⟨hne, by simp [hcb], fun hhc => ?_, rfl, rfl, rfl, by simp [hhb], by simp [hhb]⟩
      -- What is here is the base's, so a config that says the same has not changed it.
      have := sameValue_trans (sameValue_symm (hhv key) (hcv key) hhc) hhb
      simp [hcb] at this
    · cases hf
    · cases hf
  · obtain ⟨key, b, h, c, conflict, take⟩ := f
    intro hf
    simp only at hf
    obtain ⟨hne, hcb, hhc, rfl, rfl, rfl, rfl, rfl⟩ := hf
    refine ⟨key, .inl ⟨hne, fun h => hcb (sameValue_symm (hbv key) (hcv key) h)⟩, ?_⟩
    have hcb' : sameValue (config.valueAt key) (base.valueAt key) = false := by simpa using hcb
    unfold mergeKey
    cases hhb : sameValue (here.valueAt key) (base.valueAt key) <;> simp [hcb', hhb, hhc]

end

/-! Taking fields. -/

theorem TaskSpec.valueAt_deps (s : TaskSpec) : s.valueAt "deps" = s.get "deps" := by
  have hplain : envVar "deps" = none := by decide
  unfold valueAt
  rw [hplain]

theorem listedHere_of_unmoved {moved : String → Option String} {spec : TaskSpec}
    (h : ∀ dep ∈ spec.deps, moved dep = none) : listedHere moved spec = spec := by
  unfold listedHere
  rw [if_neg]
  simpa using h

theorem listedHere_eq (moved : String → Option String) (spec : TaskSpec) : listedHere moved spec = spec ∨
    ∃ value, (∀ v, value = some v → v.Keyed) ∧ listedHere moved spec = spec.setAt "deps" value := by
  unfold listedHere
  split
  · refine .inr ⟨_, fun v hv => ?_, rfl⟩
    split at hv
    · cases hv
    · cases hv
      refine (keyedItems_iff _).mpr fun v hv => ?_
      obtain ⟨dep, -, rfl⟩ := List.mem_map.mp hv
      trivial
  · exact .inl rfl

theorem takeField_step (moved : String → Option String) {config : TaskSpec} (hc : config.Keyed) {x : String}
    (hx : x ≠ "env") (hmoved : x = "deps" → ∀ dep ∈ config.deps, moved dep = none) (s : TaskSpec)
    (f : Field) (hs : s.Keyed) (hkey : f.key ≠ "env") : (takeField moved config s f).Keyed ∧
      (takeField moved config s f).valueAt x = if x = f.key then config.valueAt x else s.valueAt x := by
  have hset := setAt_step hc hx s f.key hs hkey
  unfold takeField
  extract_lets spec
  split
  · next hdeps =>
    by_cases hxd : x = "deps"
    · have hsame : spec.deps = config.deps := by
        have hget : spec.valueAt "deps" = config.valueAt "deps" := by
          rw [← hxd, hset.2, if_pos (hxd.trans hdeps.symm)]
        unfold TaskSpec.deps TaskSpec.strings
        rw [TaskSpec.valueAt_deps, TaskSpec.valueAt_deps] at hget
        rw [hget]
      rw [listedHere_of_unmoved (hsame ▸ hmoved hxd)]
      exact hset
    · obtain heq | ⟨value, hv, heq⟩ := listedHere_eq moved spec
      · rw [heq]
        exact hset
      · rw [heq]
        refine ⟨hset.1.setAt _ _ hv, ?_⟩
        rw [TaskSpec.valueAt_setAt hset.1 (by decide) hx, if_neg hxd]
        exact hset.2
  · exact hset

theorem valueAt_takeFields (moved : String → Option String) {config here : TaskSpec} (hc : config.Keyed)
    (hh : here.Keyed) {x : String} (hx : x ≠ "env")
    (hmoved : x = "deps" → ∀ dep ∈ config.deps, moved dep = none) (fields : List Field)
    (hne : ∀ f ∈ fields, f.key ≠ "env") : (takeFields moved config here fields).valueAt x =
      if ∃ f ∈ fields, f.take ∧ f.key = x then config.valueAt x else here.valueAt x := by
  have hfold := valueAt_foldl (takeField_step moved hc hx hmoved) (fields.filter (·.take))
    (fun f hf => hne f (List.mem_of_mem_filter hf)) hh
  rw [takeFields, hfold.2]
  refine if_congr ?_ rfl rfl
  simp [and_assoc]

end Dekit
