/-
  The allow-list of tools, `agent.allowed_tools`.

  The gate looks at the emitted name, the registry at its tools: the entries that let a name
  pass (`names`) need not be the entries that permit the tool it finds (`Permits`).
  `governs_iff`: the calls of a name follow every list exactly when the name is the
  qualified name of its tool, without a dot in the id of the plugin or in the short name.
  (`Ordinary` leaves out the tools whose names no list can hold; there the forms that it can
  hold have to be the same.) `short_name_refused` is a tool that the list permits and a short
  name does not reach.
-/
import TruellmEngine.Bridge.ToolRegistry
import TruellmEngine.Lib.Json
import TruellmEngine.Lib.SepList
import Mathlib.Data.List.Infix

namespace TruellmEngine.Bridge

open Lib

/-! ## The gate -/

def isBlank (c : Char) : Bool := c = ' ' || c = '\t'

/-- What is behind the first dot, or the whole name. -/
def shortName (qname : List Char) : List Char :=
  if '.' ∈ qname then (qname.dropWhile (· ≠ '.')).tail else qname

/-- The entry lets the name pass: as it is, by its short form, or as `plugin.*`. -/
def names (qname tok : List Char) : Bool :=
  tok = qname || tok = shortName qname ||
    (['.', '*'].isSuffixOf tok && tok.dropLast.isPrefixOf qname)

def isToolAllowed (qname allowCsv : String) : Bool :=
  allowCsv.isEmpty || (entries ',' isBlank allowCsv.toList).any (names qname.toList)

/-- The list of the context; without one every tool is allowed. -/
def allowCsv (ctx : Option Context) : String :=
  (ctx.bind fun c => c.metadata "agent.allowed_tools").getD ""

/-! ## The two callers -/

def formatToolDenial (text : JsonText) (reason : String) : String :=
  text.dump (.object [("denied", .boolean true), ("reason", .string reason)])

/-- What the model reads of a result. -/
def toolBody (text : JsonText) (tc : ToolCallResult) : String :=
  match tc.error with
  | .ok => tc.payload
  | .permission =>
    formatToolDenial text (if tc.errorMsg = "" then "tool refused the request" else tc.errorMsg)
  | _ => "[Tool error] " ++ tc.errorMsg

/-- One call of a tool loop. -/
structure ToolTurn where
  ran : Option Tool
  body : String
  ctx : Option Context

/-- A call in the loop of the router: `advice` is what the loop adds to a refusal. -/
def routerToolCall (text : JsonText) (advice : String) (r : ToolRegistry) (ctx : Option Context)
    (qname args : String) : ToolTurn :=
  if isToolAllowed qname (allowCsv ctx) then
    let d := r.dispatch qname args ctx
    { ran := d.ran, body := toolBody text d.result, ctx := d.ctx }
  else
    { ran := none
      body := formatToolDenial text
        ("tool '" ++ qname ++ "' is not in the allow-list (agent.allowed_tools)" ++ advice)
      ctx := ctx }

def completionsToolCall (text : JsonText) : ToolRegistry → Option Context → String → String →
    ToolTurn :=
  routerToolCall text ""

def chatToolCall (text : JsonText) : ToolRegistry → Option Context → String → String →
    ToolTurn :=
  routerToolCall text ".  Use a different tool or ask the user to widen the scope."

/-- The envelope that `call_tool` hands to a plugin. -/
structure Envelope where
  ok : Bool
  errorCode : Nat
  errorMsg : String
  payload : String

structure VtableCall where
  ran : Option Tool
  error : PluginError
  envelope : Option Envelope
  ctx : Option Context

/-- The call of a tool by a plugin, under the same list. -/
def vtableCallTool (r : ToolRegistry) (ctx : Option Context) (qualifiedName args : Option String) :
    VtableCall :=
  match qualifiedName with
  | none => { ran := none, error := .invalid, envelope := none, ctx := ctx }
  | some qn =>
    if isToolAllowed qn (allowCsv ctx) then
      let d := r.dispatch qn (args.getD "") ctx
      { ran := d.ran
        error := .ok
        envelope := some {
          ok := d.result.error = .ok
          errorCode := d.result.error.code
          errorMsg := d.result.errorMsg
          payload := if d.result.error = .ok then d.result.payload else "" }
        ctx := d.ctx }
    else
      { ran := none
        error := .ok
        envelope := some {
          ok := false
          errorCode := PluginError.permission.code
          errorMsg := "tool '" ++ qn ++ "' is not in the allow-list (agent.allowed_tools)"
          payload := "" }
        ctx := ctx }

/-! ## What the list permits -/

/-- The entry permits the tool: by its qualified name, its short name, or as `plugin.*`. -/
def Permits (t : Tool) (tok : List Char) : Prop :=
  tok = t.qualifiedName.toList ∨ tok = t.toolName.toList ∨ tok = t.pluginId.toList ++ ['.', '*']

def Permitted (allowCsv : String) (t : Tool) : Prop :=
  ∃ tok ∈ entries ',' isBlank allowCsv.toList, Permits t tok

/-- Under every list, the calls of a name run exactly the tool it finds, if the list permits
    it: in the loops of the router and from plugins. -/
structure Governs (r : ToolRegistry) (q : String) : Prop where
  router : ∀ text advice ctx args t, allowCsv ctx ≠ "" →
    ((routerToolCall text advice r ctx q args).ran = some t ↔
      r.tool? q = some t ∧ Permitted (allowCsv ctx) t)
  vtable : ∀ ctx args t, allowCsv ctx ≠ "" →
    ((vtableCallTool r ctx (some q) args).ran = some t ↔
      r.tool? q = some t ∧ Permitted (allowCsv ctx) t)

/-- The qualified name can be written in a list, and the short name does not look like a
    wildcard. -/
structure Ordinary (t : Tool) : Prop where
  listable : Listable ',' isBlank t.qualifiedName.toList
  noStar : t.toolName.toList.getLast? ≠ some '*'

/-- Each possible entry lets the name pass exactly when it permits the tool. -/
def Agree (q : String) (t : Tool) : Prop :=
  ∀ tok, Listable ',' isBlank tok → (names q.toList tok = true ↔ Permits t tok)

variable {r : ToolRegistry} {q : String} {t : Tool}

theorem router_ran (text : JsonText) (advice : String) (ctx : Option Context) (args : String) :
    (routerToolCall text advice r ctx q args).ran =
      if isToolAllowed q (allowCsv ctx) then r.tool? q else none := by
  unfold routerToolCall
  split
  · exact ToolRegistry.dispatch_ran r q args ctx
  · rfl

theorem vtable_ran (ctx : Option Context) (args : Option String) :
    (vtableCallTool r ctx (some q) args).ran =
      if isToolAllowed q (allowCsv ctx) then r.tool? q else none := by
  unfold vtableCallTool
  dsimp only
  split
  · exact ToolRegistry.dispatch_ran r q _ ctx
  · rfl

theorem isToolAllowed_iff {csv : String} (h : csv ≠ "") :
    isToolAllowed q csv = true ↔
      ∃ tok ∈ entries ',' isBlank csv.toList, names q.toList tok = true := by
  simp [isToolAllowed, h]

theorem ofList_ne_empty {tok : List Char} (h : tok ≠ []) : String.ofList tok ≠ "" := by
  intro hempty
  have hnil := congrArg String.toList hempty
  rw [String.toList_ofList] at hnil
  exact h hnil

/-- The list with one entry. -/
theorem listed_iff {tok : List Char} (htok : Listable ',' isBlank tok) (t : Tool) :
    (isToolAllowed q (String.ofList tok) = true ↔ names q.toList tok = true) ∧
      (Permitted (String.ofList tok) t ↔ Permits t tok) := by
  rw [isToolAllowed_iff (ofList_ne_empty htok.nonempty)]
  unfold Permitted
  rw [String.toList_ofList, entries_of_listable htok]
  simp

/-- The gate is right about the tools of a name, for each list, exactly when it is right
    about each entry. -/
theorem governs_iff_agree : Governs r q ↔ ∀ t, r.tool? q = some t → Agree q t := by
  constructor
  · intro h t ht tok htok
    obtain ⟨hallowed, hpermitted⟩ := listed_iff (q := q) htok t
    have hvtable := h.vtable (some { metadata := fun _ => some (String.ofList tok) }) none t
      (ofList_ne_empty htok.nonempty)
    have hcsv : allowCsv (some { metadata := fun _ => some (String.ofList tok) }) =
        String.ofList tok := rfl
    rw [vtable_ran, hcsv, hpermitted, and_iff_right ht] at hvtable
    rw [← hvtable, ← hallowed]
    split
    · rename_i hpass
      exact iff_of_true hpass ht
    · rename_i hrefused
      exact iff_of_false hrefused (by simp)
  · intro h
    have hgate : ∀ csv t, csv ≠ "" →
        ((if isToolAllowed q csv then r.tool? q else none) = some t ↔
          r.tool? q = some t ∧ Permitted csv t) := by
      intro csv t hne
      constructor
      · intro hran
        split at hran
        · rename_i hpass
          obtain ⟨tok, hmem, hnames⟩ := (isToolAllowed_iff hne).mp hpass
          exact ⟨hran, tok, hmem, (h t hran tok (listable_of_mem hmem)).mp hnames⟩
        · cases hran
      · rintro ⟨ht, tok, hmem, hpermits⟩
        rw [if_pos]
        · exact ht
        · exact (isToolAllowed_iff hne).mpr
            ⟨tok, hmem, (h t ht tok (listable_of_mem hmem)).mpr hpermits⟩
    constructor
    · intro text advice ctx args t hne
      rw [router_ran]
      exact hgate (allowCsv ctx) t hne
    · intro ctx args t hne
      rw [vtable_ran]
      exact hgate (allowCsv ctx) t hne

/-! ## Names of ordinary tools -/

section Names

variable {p n x : List Char}

theorem takeWhile_dot (h : '.' ∉ p) : (p ++ '.' :: n).takeWhile (· ≠ '.') = p := by
  induction p with
  | nil => rfl
  | cons c p ih =>
    rw [List.mem_cons, not_or] at h
    rw [List.cons_append, List.takeWhile_cons_of_pos (by simpa using Ne.symm h.1), ih h.2]

theorem shortName_dot (h : '.' ∉ p) : shortName (p ++ '.' :: n) = n := by
  have hmem : '.' ∈ p ++ '.' :: n := by simp
  have hsplit := List.takeWhile_append_dropWhile (p := (· ≠ '.')) (l := p ++ '.' :: n)
  rw [takeWhile_dot h] at hsplit
  unfold shortName
  rw [if_pos hmem, List.append_cancel_left hsplit]
  rfl

/-- The wildcards that let a name pass: a dot of the name ends them. -/
theorem names_iff {q tok : List Char} :
    names q tok = true ↔ tok = q ∨ tok = shortName q ∨
      ∃ x, tok = x ++ ['.', '*'] ∧ x ++ ['.'] <+: q := by
  unfold names
  simp only [Bool.or_eq_true, Bool.and_eq_true, decide_eq_true_eq, List.isSuffixOf_iff_suffix,
    List.isPrefixOf_iff_prefix, or_assoc]
  refine or_congr_right (or_congr_right ?_)
  have hdrop : ∀ x : List Char, (x ++ ['.', '*']).dropLast = x ++ ['.'] := by
    intro x
    rw [List.append_cons x '.' ['*'], List.dropLast_concat]
  constructor
  · rintro ⟨⟨x, rfl⟩, hprefix⟩
    exact ⟨x, rfl, hdrop x ▸ hprefix⟩
  · rintro ⟨x, rfl, hprefix⟩
    exact ⟨⟨x, rfl⟩, (hdrop x).symm ▸ hprefix⟩

theorem toList_qualifiedName (t : Tool) :
    t.qualifiedName.toList = t.pluginId.toList ++ '.' :: t.toolName.toList := by
  simp [Tool.qualifiedName]

/-- The entries of a qualified name without other dots. -/
theorem agree_of_no_dots (hp : '.' ∉ t.pluginId.toList) (hn : '.' ∉ t.toolName.toList) :
    Agree t.qualifiedName t := by
  intro tok _
  rw [names_iff]
  unfold Permits
  rw [toList_qualifiedName, shortName_dot hp]
  refine or_congr_right (or_congr_right ?_)
  constructor
  · rintro ⟨x, rfl, rest, hrest⟩
    rw [List.append_assoc] at hrest
    have hcount := congrArg (List.count '.') hrest
    simp only [List.count_append, List.count_cons_self, List.count_eq_zero.mpr hp,
      List.count_eq_zero.mpr hn, List.singleton_append] at hcount
    have hx : '.' ∉ x := List.count_eq_zero.mp (by omega)
    have hsame : x = t.pluginId.toList := by
      rw [← takeWhile_dot hx (n := rest), ← takeWhile_dot hp (n := t.toolName.toList)]
      exact congrArg _ hrest
    rw [hsame]
  · rintro rfl
    exact ⟨t.pluginId.toList, rfl, t.toolName.toList, by simp⟩

/-- An ordinary tool's names do not end in a star. -/
theorem Ordinary.ne_wildcard (h : Ordinary t) (x : List Char) :
    t.qualifiedName.toList ≠ x ++ ['.', '*'] ∧ t.toolName.toList ≠ x ++ ['.', '*'] := by
  have hname : t.toolName.toList.getLast? ≠ some '*' := h.noStar
  constructor
  · intro hq
    have hlast := congrArg List.getLast? hq
    rw [toList_qualifiedName] at hlast
    cases hn : t.toolName.toList with
    | nil => simp [hn] at hlast
    | cons c n =>
      rw [hn] at hlast hname
      rw [List.getLast?_append_of_ne_nil _ (List.cons_ne_nil _ _), List.getLast?_cons_cons,
        List.getLast?_append_of_ne_nil _ (List.cons_ne_nil _ _)] at hlast
      exact hname hlast
  · intro hn
    rw [hn] at hname
    simp at hname

/-- The wildcard of a dotted start of the qualified name can be written in a list. -/
theorem Ordinary.listable_wildcard (h : Ordinary t) {x : List Char}
    (hx : x ++ ['.'] <+: t.qualifiedName.toList) :
    Listable ',' isBlank (x ++ ['.', '*']) := by
  refine ⟨by simp, ?_, ?_, ?_⟩
  · intro hcomma
    have hmem : ',' ∈ x ++ ['.'] := by simpa using hcomma
    exact h.listable.sep (hx.subset hmem)
  · intro c hc
    obtain ⟨rest, hrest⟩ := hx
    refine h.listable.head c ?_
    rw [← hrest, List.append_assoc]
    cases x with
    | nil => exact hc
    | cons d x => exact hc
  · intro c hc
    have hstar : '*' = c := by simpa using hc
    rw [← hstar]
    rfl

/-- Where the entries agree, only the dot behind the plugin id ends a wildcard. -/
theorem Agree.wildcard (h : Agree t.qualifiedName t) (ht : Ordinary t) {x : List Char}
    (hx : x ++ ['.'] <+: t.qualifiedName.toList) : x = t.pluginId.toList := by
  have hnames := names_iff.mpr (Or.inr (Or.inr ⟨x, rfl, hx⟩))
  rcases (h _ (ht.listable_wildcard hx)).mp hnames with hq | hn | hp
  · exact absurd hq.symm (ht.ne_wildcard x).1
  · exact absurd hn.symm (ht.ne_wildcard x).2
  · exact List.append_cancel_right hp

/-- The short name of an ordinary tool is not its only name. -/
theorem not_agree_toolName (ht : Ordinary t) : ¬ Agree t.toolName t := by
  intro h
  have hlen : t.toolName.toList.length < t.qualifiedName.toList.length := by
    rw [toList_qualifiedName, List.length_append, List.length_cons]
    omega
  rcases names_iff.mp ((h _ ht.listable).mpr (Or.inl rfl)) with hsame | hshort | ⟨x, hx, -⟩
  · rw [hsame] at hlen
    omega
  · have hle : (shortName t.toolName.toList).length ≤ t.toolName.toList.length := by
      unfold shortName
      split
      · rw [List.length_tail]
        exact (Nat.sub_le _ _).trans (List.length_dropWhile_le _ _)
      · exact Nat.le_refl _
    rw [hshort] at hlen
    omega
  · exact (ht.ne_wildcard x).1 hx

theorem Agree.no_dots (h : Agree t.qualifiedName t) (ht : Ordinary t) :
    '.' ∉ t.pluginId.toList ∧ '.' ∉ t.toolName.toList := by
  constructor
  · intro hdot
    obtain ⟨x, y, hxy⟩ := List.append_of_mem hdot
    have hx : x = t.pluginId.toList := by
      refine h.wildcard ht ⟨y ++ '.' :: t.toolName.toList, ?_⟩
      rw [toList_qualifiedName, hxy]
      simp
    have hlen := congrArg List.length hxy
    rw [← hx, List.length_append, List.length_cons] at hlen
    omega
  · intro hdot
    obtain ⟨x, y, hxy⟩ := List.append_of_mem hdot
    have hx : t.pluginId.toList ++ '.' :: x = t.pluginId.toList := by
      refine h.wildcard ht ⟨y, ?_⟩
      rw [toList_qualifiedName, hxy]
      simp
    have hlen := congrArg List.length hx
    rw [List.length_append, List.length_cons] at hlen
    omega

end Names

/-- What a name can be written as: the name, its short form, and a wildcard at each dot. -/
def nameForms (qname : List Char) : List (List Char) :=
  qname :: shortName qname :: (qname.inits.filter (·.getLast? = some '.')).map (· ++ ['*'])

/-- What a tool can be written as. -/
def toolForms (t : Tool) : List (List Char) :=
  [t.qualifiedName.toList, t.toolName.toList, t.pluginId.toList ++ ['.', '*']]

/-- The forms that a list can hold are the same. -/
def SameForms (q : String) (t : Tool) : Prop :=
  ∀ tok ∈ nameForms q.toList ++ toolForms t, Listable ',' isBlank tok →
    tok ∈ nameForms q.toList ∧ tok ∈ toolForms t

/-- The name is right for the list: the qualified name of its tool, without other dots; or
    the tool has names that no list can hold, and the forms that are left are the same. -/
def NameFits (q : String) (t : Tool) : Prop :=
  (q = t.qualifiedName ∧ '.' ∉ t.pluginId.toList ∧ '.' ∉ t.toolName.toList) ∨
    (¬ Ordinary t ∧ SameForms q t)

theorem mem_nameForms {qname tok : List Char} : tok ∈ nameForms qname ↔ names qname tok = true := by
  rw [names_iff]
  unfold nameForms
  rw [List.mem_cons, List.mem_cons, List.mem_map]
  refine or_congr_right (or_congr_right ?_)
  constructor
  · rintro ⟨front, hfront, rfl⟩
    obtain ⟨hinit, hdot⟩ := List.mem_filter.mp hfront
    obtain ⟨x, rfl⟩ := List.getLast?_eq_some_iff.mp (of_decide_eq_true hdot)
    exact ⟨x, by rw [List.append_assoc]; rfl, (List.mem_inits _ _).mp hinit⟩
  · rintro ⟨x, rfl, hprefix⟩
    refine ⟨x ++ ['.'], List.mem_filter.mpr ⟨(List.mem_inits _ _).mpr hprefix, by simp⟩, ?_⟩
    rw [List.append_assoc]
    rfl

theorem mem_toolForms {tok : List Char} : tok ∈ toolForms t ↔ Permits t tok := by
  unfold toolForms Permits
  rw [List.mem_cons, List.mem_cons, List.mem_singleton]

theorem agree_iff_sameForms : Agree q t ↔ SameForms q t := by
  constructor
  · intro h tok hmem hlist
    have hboth := h tok hlist
    rw [← mem_nameForms, ← mem_toolForms] at hboth
    rcases List.mem_append.mp hmem with hname | htool
    · exact ⟨hname, hboth.mp hname⟩
    · exact ⟨hboth.mpr htool, htool⟩
  · intro h tok hlist
    rw [← mem_nameForms, ← mem_toolForms]
    exact ⟨fun hname => (h tok (List.mem_append_left _ hname) hlist).2,
      fun htool => (h tok (List.mem_append_right _ htool) hlist).1⟩

theorem agree_iff (hq : q = t.qualifiedName ∨ q = t.toolName) : Agree q t ↔ NameFits q t := by
  constructor
  · intro h
    by_cases ht : Ordinary t
    · rcases hq with rfl | rfl
      · exact Or.inl ⟨rfl, h.no_dots ht⟩
      · exact absurd h (not_agree_toolName ht)
    · exact Or.inr ⟨ht, agree_iff_sameForms.mp h⟩
  · rintro (⟨rfl, hp, hn⟩ | ⟨-, h⟩)
    · exact agree_of_no_dots hp hn
    · exact agree_iff_sameForms.mpr h

/-- The calls of a name run the tool it finds exactly as every list permits it, exactly when
    the name fits the tool. -/
theorem governs_iff (r : ToolRegistry) (q : String) :
    Governs r q ↔ ∀ t, r.tool? q = some t → NameFits q t := by
  rw [governs_iff_agree]
  constructor
  · intro h t ht
    exact (agree_iff (ToolRegistry.tool?_eq ht)).mp (h t ht)
  · intro h t ht
    exact (agree_iff (ToolRegistry.tool?_eq ht)).mpr (h t ht)

/-- The tool `fetch_url` of `tool_web_fetch`. -/
def fetchUrl : Tool where
  pluginId := "tool_web_fetch"
  toolName := "fetch_url"
  schemaJson := "\x7b\x7d"
  run _ ctx := ({}, ctx)

/-- A list with the qualified name refuses the short one, by which the model knows it. -/
theorem short_name_refused : ¬ Governs { entries := [fetchUrl] } "fetch_url" := by
  intro h
  have hrun := (h.vtable (some { metadata := fun _ => some "tool_web_fetch.fetch_url" }) none
    fetchUrl (by decide)).mpr ⟨rfl, "tool_web_fetch.fetch_url".toList, by decide, Or.inl rfl⟩
  rw [vtable_ran, if_neg (by decide)] at hrun
  cases hrun

end TruellmEngine.Bridge
