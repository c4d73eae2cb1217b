/-
  The settings of plugins: a table of tables, laid flat under dotted names.

  The text of every scalar is under its name, and nothing else is (`Flattened`), unless two
  scalars with the same name have different texts (`flattened_iff`).
-/
import TruellmEngine.Config.Overlay

namespace TruellmEngine.Config

open Lib

variable {D F : Type} [Doubles D F] (env : String → Option String)

/-- A setting: the keys down to a scalar, and its text. -/
inductive Leaf : Toml D → List String → String → Prop
  | scalar {entries : List (String × Toml D)} {key : String} {v : Toml D} {text : String}
      (h : (key, v) ∈ entries) (htext : settingText env v = some text) :
      Leaf (.table entries) [key] text
  | nested {entries : List (String × Toml D)} {key : String} {v : Toml D} {path : List String}
      {text : String} (h : (key, v) ∈ entries) (hleaf : Leaf v path text) :
      Leaf (.table entries) (key :: path) text

/-- The keys of a setting, joined. -/
def dotted (path : List String) : String := path.foldl joinKey ""

/-- What is stored for one entry. -/
def entryStores (pre : String) (e : String × Toml D) : List (String × String) :=
  (settingText env e.2).elim (walk env (joinKey pre e.1) e.2) fun text =>
    [(joinKey pre e.1, text)]

theorem walkEntries_eq (pre : String) (entries : List (String × Toml D)) :
    walkEntries env pre entries = entries.flatMap (entryStores env pre) := by
  induction entries with
  | nil => rfl
  | cons e rest ih =>
    rw [walkEntries, ih, List.flatMap_cons]
    rfl

theorem mem_walk_of_leaf {v : Toml D} {path : List String} {text : String}
    (h : Leaf env v path text) (pre : String) :
    (path.foldl joinKey pre, text) ∈ walk env pre v := by
  induction h generalizing pre with
  | scalar h htext =>
    rw [walk, walkEntries_eq]
    refine List.mem_flatMap.mpr ⟨_, h, ?_⟩
    unfold entryStores
    rw [htext]
    exact List.mem_singleton_self _
  | @nested entries key v path text h hleaf ih =>
    have htable : settingText env v = none := by cases hleaf <;> rfl
    rw [walk, walkEntries_eq]
    refine List.mem_flatMap.mpr ⟨_, h, ?_⟩
    unfold entryStores
    rw [htable]
    exact ih (joinKey pre key)

theorem Leaf.more {entries : List (String × Toml D)} {path : List String} {text : String}
    (e : String × Toml D) (h : Leaf env (.table entries) path text) :
    Leaf env (.table (e :: entries)) path text := by
  cases h with
  | scalar h htext => exact .scalar (List.mem_cons_of_mem e h) htext
  | nested h hleaf => exact .nested (List.mem_cons_of_mem e h) hleaf

mutual

theorem leaf_of_mem_walk {name text : String} : ∀ {v : Toml D} {pre : String},
    (name, text) ∈ walk env pre v → ∃ path, Leaf env v path text ∧ path.foldl joinKey pre = name
  | .table entries, pre, h => by
    rw [walk] at h
    exact leaf_of_mem_walkEntries h
  | .boolean _, _, h | .integer _, _, h | .floating _, _, h | .string _, _, h | .datetime _, _, h
  | .array _, _, h => by
    simp only [walk, List.not_mem_nil] at h

theorem leaf_of_mem_walkEntries {name text : String} :
    ∀ {entries : List (String × Toml D)} {pre : String},
    (name, text) ∈ walkEntries env pre entries →
      ∃ path, Leaf env (.table entries) path text ∧ path.foldl joinKey pre = name
  | [], _, h => by
    rw [walkEntries] at h
    exact absurd h List.not_mem_nil
  | (key, v) :: rest, pre, h => by
    rw [walkEntries] at h
    rcases List.mem_append.mp h with h | h
    · cases hscalar : settingText env v with
      | some text' =>
        rw [hscalar] at h
        obtain ⟨hname, htext⟩ := Prod.mk.inj (List.mem_singleton.mp h)
        exact ⟨[key], .scalar List.mem_cons_self (htext ▸ hscalar), hname.symm⟩
      | none =>
        rw [hscalar] at h
        obtain ⟨path, hleaf, hname⟩ := leaf_of_mem_walk h
        exact ⟨key :: path, .nested List.mem_cons_self hleaf, hname⟩
    · obtain ⟨path, hleaf, hname⟩ := leaf_of_mem_walkEntries h
      exact ⟨path, hleaf.more env (key, v), hname⟩

end

/-- The walk stores the settings, each under its name. -/
theorem mem_walk_iff {v : Toml D} {name text : String} :
    (name, text) ∈ walk env "" v ↔ ∃ path, Leaf env v path text ∧ dotted path = name := by
  constructor
  · exact leaf_of_mem_walk env
  · rintro ⟨path, hleaf, rfl⟩
    exact mem_walk_of_leaf env hleaf ""

/-! ## The settings of a document -/

/-- A setting in `[plugins.settings]`. -/
def PluginSetting (root : Toml D) (path : List String) (text : String) : Prop :=
  ∃ st, follow Toml.at? root ["plugins", "settings"] = some st ∧ Leaf env st path text

/-- Every setting is under its name, and elsewhere nothing changed. -/
def Flattened (root : Toml D) (m m' : String → Option String) : Prop :=
  (∀ path text, PluginSetting env root path text → m' (dotted path) = some text) ∧
    ∀ name, (∀ path text, PluginSetting env root path text → dotted path ≠ name) →
      m' name = m name

/-- Settings with one name have one text. -/
def OneText (root : Toml D) : Prop :=
  ∀ path text path' text', PluginSetting env root path text →
    PluginSetting env root path' text' → dotted path = dotted path' → text = text'

theorem flattened_iff {root : Toml D} {stores : List (String × String)}
    {m : String → Option String}
    (hstores : ∀ name text, (name, text) ∈ stores ↔
      ∃ path, PluginSetting env root path text ∧ dotted path = name) :
    Flattened env root m (storeAll (stores.map fun s => (s.1, some s.2)) m) ↔
      OneText env root := by
  have hmem : ∀ name v, (name, v) ∈ (stores.map fun s => (s.1, some s.2)) ↔
      ∃ path text, PluginSetting env root path text ∧ dotted path = name ∧ v = some text := by
    intro name v
    rw [List.mem_map]
    constructor
    · rintro ⟨⟨name', text⟩, h, hv⟩
      obtain ⟨rfl, rfl⟩ := Prod.mk.inj hv
      obtain ⟨path, hset, hname⟩ := (hstores name' text).mp h
      exact ⟨path, text, hset, hname, rfl⟩
    · rintro ⟨path, text, hset, rfl, rfl⟩
      exact ⟨(dotted path, text), (hstores _ _).mpr ⟨path, hset, rfl⟩, rfl⟩
  constructor
  · rintro ⟨hall, -⟩ path text path' text' hset hset' hname
    have h := hall path text hset
    rw [hname, hall path' text' hset'] at h
    exact (Option.some.inj h).symm
  · intro hone
    constructor
    · intro path text hset
      apply storeAll_of_mem m ((hmem _ _).mpr ⟨path, text, hset, rfl, rfl⟩)
      intro w hw
      obtain ⟨path', text', hset', hname, rfl⟩ := (hmem _ _).mp hw
      exact congrArg some (hone _ _ _ _ hset' hset hname)
    · intro name hno
      apply storeAll_of_not_mem
      intro w hw
      obtain ⟨path, text, hset, hname, -⟩ := (hmem _ _).mp hw
      exact hno path text hset hname

theorem flattened_absent {root : Toml D} {m : String → Option String}
    (h : follow Toml.at? root ["plugins", "settings"] = none) :
    Flattened env root m m ↔ OneText env root := by
  have hstores : ∀ name text, (name, text) ∈ ([] : List (String × String)) ↔
      ∃ path, PluginSetting env root path text ∧ dotted path = name := by
    intro name text
    refine iff_of_false List.not_mem_nil ?_
    rintro ⟨path, ⟨st, hst, -⟩, -⟩
    rw [h] at hst
    cases hst
  exact flattened_iff env hstores

variable {env} {int : GetInt}

theorem parsePlugins_settings [Floating F] {root : Toml D} {out out' : PluginConfig F}
    (h : parsePlugins env int root out = .ok out') :
    Flattened env root out.settings out'.settings ↔ OneText env root := by
  rcases inSection_ok h with ⟨t, ht, hparse⟩ | ⟨hnone, rfl⟩
  · obtain ⟨settings, hsettings, hparse⟩ := bind_eq_ok.mp hparse
    cases hparse
    have hfollow : follow Toml.at? root ["plugins", "settings"] = t.at? "settings" := by
      show (root.at? "plugins").bind _ = _
      rw [ht]
      exact Option.bind_fun_some _
    rcases inSection_ok hsettings with ⟨st, hst, hwalk⟩ | ⟨hnone, rfl⟩
    · cases hwalk
      apply flattened_iff
      intro name text
      rw [mem_walk_iff]
      constructor
      · rintro ⟨path, hleaf, hname⟩
        exact ⟨path, ⟨st, hfollow.trans hst, hleaf⟩, hname⟩
      · rintro ⟨path, ⟨st', hst', hleaf⟩, hname⟩
        obtain rfl := Option.some.inj ((hfollow.trans hst).symm.trans hst')
        exact ⟨path, hleaf, hname⟩
    · exact flattened_absent env (hfollow.trans hnone)
  · apply flattened_absent
    show (root.at? "plugins").bind _ = none
    rw [hnone]
    rfl

end TruellmEngine.Config
