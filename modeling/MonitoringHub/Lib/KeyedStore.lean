import Mathlib.Data.List.Basic

/-! Finite keyed stores: one value a key, with removal by a predicate on keys. What a
lookup finds after a write or a removal is all that users of a store need. -/

namespace MonitoringHub.Lib.KeyedStore
variable {κ ν : Type*} [DecidableEq κ]

def find (k : κ) : List (κ × ν) → Option ν
  | [] => none
  | (k', v) :: store => if k' = k then some v else find k store

def dropWhere (p : κ → Bool) (store : List (κ × ν)) : List (κ × ν) :=
  store.filter fun entry => !p entry.1

def write (k : κ) (v : ν) (store : List (κ × ν)) : List (κ × ν) :=
  (k, v) :: dropWhere (fun k' => k' = k) store

def keys (store : List (κ × ν)) : List κ := store.map Prod.fst

section Unfolding
attribute [local simp] find dropWhere write keys

theorem find_dropWhere (p : κ → Bool) (k : κ) (store : List (κ × ν)) :
    find k (dropWhere p store) = if p k then none else find k store := by
  induction store with
  | nil => simp
  | cons entry store ih =>
    obtain ⟨k', v⟩ := entry
    unfold dropWhere at ih ⊢
    by_cases hk : k' = k
    · subst hk
      by_cases hp : p k' <;> simp_all
    · by_cases hp : p k' <;> simp_all

theorem find_write (k k' : κ) (v : ν) (store : List (κ × ν)) :
    find k' (write k v store) = if k' = k then some v else find k' store := by
  by_cases h : k' = k
  · subst h
    simp
  · have hne : ¬ k = k' := fun heq => h heq.symm
    have hdropped : find k' (dropWhere (· = k) store) = find k' store := by
      rw [find_dropWhere, if_neg (by simpa using h)]
    simpa [h, hne] using hdropped

end Unfolding

theorem find_dropWhere_some {p : κ → Bool} {k : κ} {v : ν} {store : List (κ × ν)}
    (h : find k (dropWhere p store) = some v) : p k = false ∧ find k store = some v := by
  rw [find_dropWhere] at h
  split at h
  · cases h
  · rename_i hp
    exact ⟨by simpa using hp, h⟩

omit [DecidableEq κ] in
/-- Dropping a key that is there leaves fewer entries. -/
theorem length_dropWhere_lt {p : κ → Bool} {k : κ} {v : ν} {store : List (κ × ν)}
    (h : (k, v) ∈ store) (hp : p k = true) : (dropWhere p store).length < store.length := by
  rw [dropWhere, List.length_filter_lt_length_iff_exists]
  exact ⟨(k, v), h, by simp [hp]⟩

theorem find_append (k : κ) (store store' : List (κ × ν)) :
    find k (store ++ store') = (find k store).or (find k store') := by
  induction store with
  | nil => rfl
  | cons entry store ih =>
    obtain ⟨k', v⟩ := entry
    rw [List.cons_append, find, find, ih]
    split <;> rfl

theorem mem_of_find {k : κ} {v : ν} {store : List (κ × ν)} (h : find k store = some v) :
    (k, v) ∈ store := by
  induction store with
  | nil => cases h
  | cons entry store ih =>
    obtain ⟨k', v'⟩ := entry
    simp only [find] at h
    split at h
    · rename_i hk
      obtain rfl := Option.some.inj h
      exact hk ▸ List.mem_cons_self
    · exact List.mem_cons_of_mem _ (ih h)

theorem mem_keys_of_find {k : κ} {v : ν} {store : List (κ × ν)} (h : find k store = some v) :
    k ∈ keys store :=
  List.mem_map_of_mem (mem_of_find h)

theorem find_isSome_iff {k : κ} {store : List (κ × ν)} :
    (find k store).isSome = true ↔ k ∈ keys store := by
  induction store with
  | nil => simp [find, keys]
  | cons entry store ih =>
    obtain ⟨k', v'⟩ := entry
    rw [find]
    split
    · rename_i hk
      simp [keys, hk]
    · rename_i hk
      rw [ih]
      simp [keys, eq_comm (a := k), hk]

/-- No key twice: then an entry is what a lookup finds. -/
def Distinct (store : List (κ × ν)) : Prop := (keys store).Nodup

omit [DecidableEq κ] in
theorem Distinct.dropWhere {store : List (κ × ν)} (h : Distinct store) (p : κ → Bool) :
    Distinct (dropWhere p store) :=
  List.Nodup.sublist (List.filter_sublist.map Prod.fst) h

theorem Distinct.write {store : List (κ × ν)} (h : Distinct store) (k : κ) (v : ν) :
    Distinct (write k v store) := by
  refine List.nodup_cons.mpr ⟨fun hmem => ?_, h.dropWhere _⟩
  obtain ⟨entry, hentry, hk⟩ := List.mem_map.mp hmem
  have hkept := (List.mem_filter.mp hentry).2
  simp [hk] at hkept

theorem Distinct.mem_iff {store : List (κ × ν)} (h : Distinct store) {k : κ} {v : ν} :
    (k, v) ∈ store ↔ find k store = some v := by
  induction store with
  | nil => simp [find]
  | cons entry store ih =>
    obtain ⟨k', v'⟩ := entry
    obtain ⟨hnew, hrest⟩ := List.nodup_cons.mp h
    rw [List.mem_cons, find]
    by_cases hk : k' = k
    · subst hk
      rw [if_pos rfl]
      constructor
      · rintro (heq | hmem)
        · rw [(Prod.mk.inj heq).2]
        · exact absurd (List.mem_map_of_mem hmem) hnew
      · intro heq
        exact .inl (by rw [Option.some.inj heq])
    · rw [if_neg hk, ← ih hrest]
      exact ⟨fun h => h.resolve_left fun heq => hk (Prod.mk.inj heq).1.symm, .inr⟩

/-- What is found after a list of writes was written, or was there before. -/
theorem mem_of_find_foldl_write {items store : List (κ × ν)} {k : κ} {v : ν}
    (h : find k (items.foldl (fun store item => write item.1 item.2 store) store) = some v) :
    (k, v) ∈ items ∨ find k store = some v := by
  induction items generalizing store with
  | nil => exact .inr h
  | cons item items ih =>
    rcases ih h with hmem | hfound
    · exact .inl (List.mem_cons_of_mem _ hmem)
    · rw [find_write] at hfound
      split at hfound
      · rename_i hk
        obtain rfl := Option.some.inj hfound
        exact .inl (hk ▸ List.mem_cons_self)
      · exact .inr hfound

/-- Writes that agree on a key leave their value there. -/
theorem find_foldl_write {items store : List (κ × ν)} {k : κ} {v : ν}
    (hagree : ∀ v', (k, v') ∈ items → v' = v) (h : (k, v) ∈ items ∨ find k store = some v) :
    find k (items.foldl (fun store item => write item.1 item.2 store) store) = some v := by
  induction items generalizing store with
  | nil => exact h.resolve_left List.not_mem_nil
  | cons item items ih =>
    refine ih (fun v' hv' => hagree v' (List.mem_cons_of_mem _ hv')) ?_
    rcases h with hmem | hfound
    · rcases List.mem_cons.mp hmem with rfl | hmem
      · exact .inr (by rw [find_write, if_pos rfl])
      · exact .inl hmem
    · right
      rw [find_write]
      split
      · rename_i hk
        exact congrArg some (hagree item.2 (hk ▸ List.mem_cons_self))
      · exact hfound

/-- The assignment to a key: in its place, or at the end. -/
def assign (k : κ) (v : ν) : List (κ × ν) → List (κ × ν)
  | [] => [(k, v)]
  | (k', v') :: store => if k' = k then (k, v) :: store else (k', v') :: assign k v store

theorem find_assign (k k' : κ) (v : ν) (store : List (κ × ν)) :
    find k' (assign k v store) = if k' = k then some v else find k' store := by
  induction store with
  | nil => simp [assign, find, eq_comm (a := k)]
  | cons entry store ih =>
    obtain ⟨k₀, v₀⟩ := entry
    rw [assign]
    split
    · rename_i hk
      subst hk
      by_cases h : k₀ = k' <;> simp [find, h, eq_comm (a := k')]
    · rename_i hk
      rw [find, find, ih]
      by_cases h : k₀ = k'
      · simp [h, h ▸ hk]
      · simp [h]

theorem mem_assign {k : κ} {v : ν} {store : List (κ × ν)} {entry : κ × ν}
    (h : entry ∈ assign k v store) : entry = (k, v) ∨ entry ∈ store := by
  induction store with
  | nil => exact .inl (List.mem_singleton.mp h)
  | cons e store ih =>
    obtain ⟨k₀, v₀⟩ := e
    rw [assign] at h
    split at h
    · exact (List.mem_cons.mp h).imp_right (List.mem_cons_of_mem _)
    · rcases List.mem_cons.mp h with rfl | h
      · exact .inr List.mem_cons_self
      · exact (ih h).imp_right (List.mem_cons_of_mem _)

theorem Distinct.assign {store : List (κ × ν)} (h : Distinct store) (k : κ) (v : ν) :
    Distinct (assign k v store) := by
  induction store with
  | nil => simp [KeyedStore.assign, Distinct, keys]
  | cons e store ih =>
    obtain ⟨hnew, hrest⟩ := List.nodup_cons.mp h
    rw [KeyedStore.assign]
    split
    · rename_i hk
      exact List.nodup_cons.mpr ⟨hk ▸ hnew, hrest⟩
    · rename_i hk
      refine List.nodup_cons.mpr ⟨fun hmem => ?_, ih hrest⟩
      obtain ⟨entry, hentry, heq⟩ := List.mem_map.mp hmem
      rcases mem_assign hentry with rfl | hentry
      · exact hk heq.symm
      · exact hnew (List.mem_map.mpr ⟨entry, hentry, heq⟩)

/-- Python's `setdefault`: the first value of a key stays. -/
def setDefault (k : κ) (v : ν) (store : List (κ × ν)) : List (κ × ν) :=
  if (find k store).isSome then store else store ++ [(k, v)]

theorem find_map_keyed {μ : Type*} (f : κ → ν → μ) (k : κ) (store : List (κ × ν)) :
    find k (store.map fun e => (e.1, f e.1 e.2)) = (find k store).map (f k) := by
  induction store with
  | nil => rfl
  | cons entry store ih =>
    rw [List.map_cons, find, find, ih]
    split
    · rename_i hk
      rw [hk, Option.map_some]
    · rfl

theorem find_map {μ : Type*} (f : ν → μ) (k : κ) (store : List (κ × ν)) :
    find k (store.map fun e => (e.1, f e.2)) = (find k store).map f :=
  find_map_keyed (fun _ => f) k store

theorem map_setDefault {μ : Type*} (f : ν → μ) (k : κ) (v : ν) (store : List (κ × ν)) :
    (setDefault k v store).map (fun e => (e.1, f e.2)) =
      setDefault k (f v) (store.map fun e => (e.1, f e.2)) := by
  unfold setDefault
  rw [find_map, Option.isSome_map]
  split
  · rfl
  · rw [List.map_append, List.map_singleton]

theorem mem_keys_setDefault {k k' : κ} {v : ν} {store : List (κ × ν)} :
    k' ∈ keys (setDefault k v store) ↔ k' ∈ keys store ∨ k' = k := by
  unfold setDefault
  split
  · rename_i hsome
    obtain ⟨v', hv'⟩ := Option.isSome_iff_exists.mp hsome
    exact ⟨.inl, fun h => h.elim id fun heq => heq ▸ mem_keys_of_find hv'⟩
  · simp [keys]

theorem mem_keys_foldl_setDefault {ι : Type*} {key : ι → κ} {value : ι → ν} {items : List ι}
    {store : List (κ × ν)} {k : κ} :
    k ∈ keys (items.foldl (fun store item => setDefault (key item) (value item) store) store) ↔
      k ∈ keys store ∨ ∃ item ∈ items, key item = k := by
  induction items generalizing store with
  | nil => simp
  | cons item items ih =>
    rw [List.foldl_cons, ih, mem_keys_setDefault]
    simp only [List.exists_mem_cons_iff, or_assoc, eq_comm (a := k)]

/-- `setdefault(k, []).append(v)`. -/
def appendAt (k : κ) (v : ν) : List (κ × List ν) → List (κ × List ν)
  | [] => [(k, [v])]
  | (k', vs) :: store => if k' = k then (k', vs ++ [v]) :: store else (k', vs) :: appendAt k v store

/-- `v` is in a list kept under `k`. -/
def Lists (store : List (κ × List ν)) (k : κ) (v : ν) : Prop := ∃ vs, (k, vs) ∈ store ∧ v ∈ vs

theorem lists_appendAt {k k' : κ} {v v' : ν} {store : List (κ × List ν)} :
    Lists (appendAt k v store) k' v' ↔ Lists store k' v' ∨ (k' = k ∧ v' = v) := by
  induction store with
  | nil => simp [Lists, appendAt]
  | cons entry store ih =>
    obtain ⟨k₀, vs⟩ := entry
    have hcons : ∀ vs' store', Lists ((k₀, vs') :: store') k' v' ↔
        (k' = k₀ ∧ v' ∈ vs') ∨ Lists store' k' v' := by
      intro vs' store'
      simp only [Lists, List.mem_cons, Prod.mk.injEq, or_and_right, exists_or]
      exact or_congr_left ⟨fun ⟨_, ⟨hk, rfl⟩, hv⟩ => ⟨hk, hv⟩, fun h => ⟨vs', ⟨h.1, rfl⟩, h.2⟩⟩
    rw [appendAt]
    split
    · rename_i hk
      subst hk
      simp only [hcons, List.mem_append, List.mem_singleton, and_or_left]
      tauto
    · simp only [hcons, ih]
      tauto

theorem lists_foldl_appendAt {ι : Type*} {key : ι → κ} {value : ι → ν} {items : List ι}
    {store : List (κ × List ν)} {k : κ} {v : ν} :
    Lists (items.foldl (fun store item => appendAt (key item) (value item) store) store) k v ↔
      Lists store k v ∨ ∃ item ∈ items, key item = k ∧ value item = v := by
  induction items generalizing store with
  | nil => simp
  | cons item items ih =>
    rw [List.foldl_cons, ih, lists_appendAt]
    simp only [List.exists_mem_cons_iff, or_assoc, eq_comm (a := k), eq_comm (a := v)]

theorem ne_nil_of_mem_appendAt {k : κ} {v : ν} {store : List (κ × List ν)}
    (h : ∀ entry ∈ store, entry.2 ≠ []) : ∀ entry ∈ appendAt k v store, entry.2 ≠ [] := by
  induction store with
  | nil =>
    intro entry hentry
    rw [List.mem_singleton.mp hentry]
    exact List.cons_ne_nil _ _
  | cons e store ih =>
    obtain ⟨hne, hrest⟩ := List.forall_mem_cons.mp h
    rw [appendAt]
    split
    · exact List.forall_mem_cons.mpr ⟨by simp, hrest⟩
    · exact List.forall_mem_cons.mpr ⟨hne, ih hrest⟩

/-- What is collected under keys: the values of some items of each key. -/
theorem mem_foldl_appendAt {ι : Type*} {key : ι → κ} {value : ι → ν} {items : List ι}
    {k : κ} {vs : List ν}
    (h : (k, vs) ∈ items.foldl (fun store item => appendAt (key item) (value item) store) []) :
    vs ≠ [] ∧ ∀ v ∈ vs, ∃ item ∈ items, key item = k ∧ value item = v := by
  have hrun : ∀ entry ∈ items.foldl (fun store item => appendAt (key item) (value item) store)
      ([] : List (κ × List ν)), entry.2 ≠ [] :=
    List.foldlRecOn (motive := fun s : List (κ × List ν) => ∀ entry ∈ s, entry.2 ≠ []) items _
      (fun _ h => absurd h List.not_mem_nil) fun _ h _ _ => ne_nil_of_mem_appendAt h
  refine ⟨hrun _ h, fun v hv => ?_⟩
  exact (lists_foldl_appendAt.mp ⟨vs, h, hv⟩).resolve_left
    fun ⟨_, hnil, _⟩ => List.not_mem_nil hnil

/-- The values of a store with their keys. -/
def entries (store : List (κ × List ν)) : List (κ × ν) :=
  store.flatMap fun entry => entry.2.map (Prod.mk entry.1)

theorem entries_appendAt (k : κ) (v : ν) (store : List (κ × List ν)) :
    (entries (appendAt k v store)).Perm ((k, v) :: entries store) := by
  induction store with
  | nil => exact .refl _
  | cons entry store ih =>
    obtain ⟨k₀, vs⟩ := entry
    rw [appendAt]
    split
    · rename_i hk
      subst hk
      simp only [entries, List.flatMap_cons, List.map_append, List.map_singleton, List.append_assoc]
      exact List.perm_middle
    · exact ((List.Perm.refl _).append ih).trans List.perm_middle

/-- Collecting under keys keeps every item once. -/
theorem entries_foldl_appendAt {ι : Type*} (key : ι → κ) (value : ι → ν) (items : List ι)
    (store : List (κ × List ν)) :
    (entries (items.foldl (fun store item => appendAt (key item) (value item) store) store)).Perm
      (items.map (fun item => (key item, value item)) ++ entries store) := by
  induction items generalizing store with
  | nil => exact .refl _
  | cons item items ih =>
    refine (ih _).trans (((List.Perm.refl _).append (entries_appendAt _ _ _)).trans ?_)
    exact List.perm_middle

theorem find_appendAt (k k' : κ) (v : ν) (store : List (κ × List ν)) :
    (find k' (appendAt k v store)).getD [] =
      (find k' store).getD [] ++ if k = k' then [v] else [] := by
  induction store with
  | nil => by_cases h : k = k' <;> simp [appendAt, find, h]
  | cons entry store ih =>
    obtain ⟨k₀, vs⟩ := entry
    rw [appendAt]
    split
    · rename_i hk
      subst hk
      by_cases h : k₀ = k' <;> simp [find, h]
    · rename_i hk
      rw [find, find]
      by_cases h : k₀ = k'
      · subst h
        simp [Ne.symm hk]
      · simpa [h] using ih

/-- A key finds the values of its items, in order. -/
theorem find_foldl_appendAt {ι : Type*} (key : ι → κ) (value : ι → ν) (items : List ι)
    (store : List (κ × List ν)) (k : κ) :
    (find k (items.foldl (fun store item => appendAt (key item) (value item) store) store)).getD []
      = (find k store).getD [] ++ (items.filter fun item => key item = k).map value := by
  induction items generalizing store with
  | nil => simp
  | cons item items ih =>
    rw [List.foldl_cons, ih, find_appendAt, List.filter_cons]
    by_cases h : key item = k <;> simp [h]

theorem mem_keys_appendAt {k k' : κ} {v : ν} {store : List (κ × List ν)} :
    k' ∈ keys (appendAt k v store) ↔ k' ∈ keys store ∨ k' = k := by
  induction store with
  | nil => simp [appendAt, keys]
  | cons entry store ih =>
    obtain ⟨k₀, vs⟩ := entry
    unfold keys at ih ⊢
    rw [appendAt]
    split
    · rename_i hk
      simp only [List.map_cons, List.mem_cons]
      exact ⟨.inl, fun h => h.elim id fun heq => .inl (heq.trans hk.symm)⟩
    · simp only [List.map_cons, List.mem_cons, ih, or_assoc]

theorem Distinct.appendAt {store : List (κ × List ν)} (h : Distinct store) (k : κ) (v : ν) :
    Distinct (appendAt k v store) := by
  induction store with
  | nil => simp [KeyedStore.appendAt, Distinct, keys]
  | cons entry store ih =>
    obtain ⟨hnew, hrest⟩ := List.nodup_cons.mp h
    rw [KeyedStore.appendAt]
    split
    · exact List.nodup_cons.mpr ⟨hnew, hrest⟩
    · rename_i hk
      refine List.nodup_cons.mpr ⟨fun hmem => ?_, ih hrest⟩
      exact (mem_keys_appendAt.mp hmem).elim hnew fun heq => hk heq

theorem Distinct.foldl_appendAt {ι : Type*} {key : ι → κ} {value : ι → ν} {items : List ι}
    {store : List (κ × List ν)} (h : Distinct store) :
    Distinct (items.foldl (fun store item => KeyedStore.appendAt (key item) (value item) store)
      store) :=
  List.foldlRecOn _ _ h fun _ h _ _ => h.appendAt _ _

/-- A fold that changes what is found at each key of a list once, whatever invariant the
single step needs. -/
theorem foldl_once {σ β : Type*} {q : σ → κ → β} {f : σ → κ → σ} {g : β → β} {I : σ → Prop}
    (hkeep : ∀ s k, I s → I (f s k))
    (hlook : ∀ s k k', I s → q (f s k) k' = if k' = k then g (q s k') else q s k')
    {ks : List κ} (hks : ks.Nodup) {s : σ} (hs : I s) :
    I (ks.foldl f s) ∧
      ∀ k, q (ks.foldl f s) k = if k ∈ ks then g (q s k) else q s k := by
  induction ks generalizing s with
  | nil => exact ⟨hs, fun k => by simp⟩
  | cons k₀ ks ih =>
    obtain ⟨hnew, hrest⟩ := List.nodup_cons.mp hks
    obtain ⟨hI, hat⟩ := ih hrest (hkeep s k₀ hs)
    refine ⟨hI, fun k => ?_⟩
    rw [List.foldl_cons, hat, hlook s k₀ k hs]
    by_cases hk : k = k₀
    · subst hk
      simp [hnew]
    · simp [hk]

end MonitoringHub.Lib.KeyedStore
