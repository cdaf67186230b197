import Tqsim.Config.Loading
import Tqsim.Config.Model.Startup

/-!
# The attributes without effect

Some of the attributes that are read from the configuration file are stored
and never looked at again: the whole table of latencies, the penalty of a
system call, the memory ports, the size of the predictor's table, and of each
cache whether it is perfect and its replacement policy. Whatever a file says
there, the simulation is the same.
-/

namespace Tqsim

namespace Config

variable {F : Type}

/-! ## Files that differ in some values -/

/-- Other values of attributes, for an element by the name of the attribute. -/
def Attributes.change (f : String → List Char → List Char) (attributes : Attributes) :
    Attributes :=
  attributes.map fun a => (a.1, f a.1 a.2)

theorem xmlGetProp_change (f : String → List Char → List Char) (attributes : Attributes)
    (name : String) :
    xmlGetProp (attributes.change f) name = (xmlGetProp attributes name).map (f name) := by
  unfold xmlGetProp Attributes.change
  induction attributes with
  | nil => rfl
  | cons a attributes ih =>
    rw [List.map_cons, List.lookup_cons, List.lookup_cons]
    by_cases h : name = a.1
    · simp [h]
    · simp [beq_false_of_ne h, ih]

/-- **A document with other values of attributes**, by the names of the element
and of the attribute. -/
def XmlNode.change (f : String → String → List Char → List Char) : XmlNode → XmlNode
  | .null => .null
  | .element name attributes children next =>
    .element name (attributes.change (f name)) (children.change f) (next.change f)
  | .other children next => .other (children.change f) (next.change f)

theorem elements_change (f : String → String → List Char → List Char) (node : XmlNode) :
    elements (node.change f) = (elements node).map fun el => (el.1, el.2.change (f el.1)) := by
  induction node with
  | null => rfl
  | element name attributes children next ihc ihn =>
    simp [XmlNode.change, elements, ihc, ihn]
  | other children next ihc ihn => simp [XmlNode.change, elements, ihc, ihn]

/-! ## What is used of a configuration -/

/-- A cache without its unused fields. -/
def CacheConfig.used (c : CacheConfig) : CacheConfig :=
  { c with perfect := 0, replacementPolicy := [] }

namespace Section

/-- The attributes that are stored and not used. -/
def unused : Section → List String
  | numfu => ["mem_rwport"]
  | latency => ["intalu", "branch", "intmult", "intdiv", "mem", "coproc"]
  | etc => ["syscall_penalty"]
  | dl1Cache | il1Cache | ul2Cache => ["perfect", "replacement_policy"]
  | bpred => ["bimod_table_size"]
  | sample | core | memory => []

/-- A section without these. -/
def used : (s : Section) → s.Val F → s.Val F
  | numfu, v => { v with memRwport := 0 }
  | latency, _ => ⟨0, 0, 0, 0, 0, 0⟩
  | etc, _ => ⟨0⟩
  | dl1Cache, v | il1Cache, v | ul2Cache, v => (v.1, v.2.used)
  | bpred, v => { v with bimodTableSize := 0 }
  | sample, v | core, v | memory, v => v

end Section

/-- **A configuration without its unused fields.** -/
def Perfmodel.used (p : Perfmodel F) : Perfmodel F :=
  { p with
    numfu := { p.numfu with memRwport := 0 }
    latency := ⟨0, 0, 0, 0, 0, 0⟩
    etc := ⟨0⟩
    dl1 := p.dl1.used
    il1 := p.il1.used
    ul2 := p.ul2.used
    bpred := { p.bpred with bimodTableSize := 0 } }

theorem Section.used_put (s : Section) (p : Perfmodel F) (v : s.Val F) :
    (s.put p v).used = s.put p.used (s.used v) := by
  cases s <;> rfl

/-! ## Reading them -/

variable {f : String → String → List Char → List Char}

/-- **Only unused attributes are changed**, and elements that are not read. -/
def ChangesUnused (f : String → String → List Char → List Char) : Prop :=
  ∀ (s : Section) a, a ∉ s.unused → ∀ v, f s.name a v = v

theorem ChangesUnused.xmlGetProp (hf : ChangesUnused f) (s : Section) (attributes : Attributes)
    (a : String) (ha : a ∉ s.unused) :
    xmlGetProp (attributes.change (f s.name)) a = Config.xmlGetProp attributes a := by
  have hid : f s.name a = id := funext (hf s a ha)
  rw [xmlGetProp_change, hid, Option.map_id, id]

theorem ChangesUnused.atoiProp (hf : ChangesUnused f) (s : Section) (attributes : Attributes)
    (a : String) (ha : a ∉ s.unused) :
    atoiProp (attributes.change (f s.name)) a = Config.atoiProp attributes a := by
  rw [Config.atoiProp, hf.xmlGetProp s attributes a ha, Config.atoiProp]

/-- A value that is not used only has to be there. -/
theorem bind_atoiProp_change {β : Type} (g : String → List Char → List Char)
    (attributes : Attributes) (a : String) (x : Option β) :
    ((atoiProp (attributes.change g) a).bind fun _ => x) =
      (atoiProp attributes a).bind fun _ => x := by
  rw [atoiProp, atoiProp, xmlGetProp_change]
  cases xmlGetProp attributes a <;> simp

/-- **An element with other values of unused attributes** is read as before. -/
theorem Section.read_change (atof : List Char → F) (hf : ChangesUnused f) (s : Section)
    (attributes : Attributes) :
    (s.read atof (attributes.change (f s.name))).map s.used =
      (s.read atof attributes).map s.used := by
  have hcache : ∀ s : Section, s.unused = ["perfect", "replacement_policy"] →
      ((readCache (attributes.change (f s.name))).map (true, ·)).map
          (fun v => (v.1, CacheConfig.used v.2)) =
        ((readCache attributes).map (true, ·)).map fun v => (v.1, CacheConfig.used v.2) := by
    intro s hs
    have hatoi : ∀ a ∉ ["perfect", "replacement_policy"],
        atoiProp (attributes.change (f s.name)) a = atoiProp attributes a :=
      fun a ha => hf.atoiProp s attributes a (hs ▸ ha)
    simp only [readCache, hatoi "num_set" (by simp), hatoi "size_blk" (by simp),
      hatoi "assoc" (by simp), hatoi "latency" (by simp), xmlGetProp_change, Option.bind_eq_bind,
      Option.map_bind, Option.bind_map, Option.map_some, Function.comp_def, CacheConfig.used,
      bind_atoiProp_change]
  cases s with
  | sample =>
    have hatoi := fun a => hf.atoiProp sample attributes a List.not_mem_nil
    have hget := fun a => hf.xmlGetProp sample attributes a List.not_mem_nil
    simp only [Section.read, readSample, hatoi, hget]
  | core =>
    have hatoi := fun a => hf.atoiProp core attributes a List.not_mem_nil
    simp only [Section.read, readCore, hatoi]
  | memory =>
    have hatoi := fun a => hf.atoiProp memory attributes a List.not_mem_nil
    simp only [Section.read, readMemory, hatoi]
  | numfu =>
    have hatoi : ∀ a ∉ ["mem_rwport"], _ := hf.atoiProp numfu attributes
    simp only [Section.read, readNumfu, hatoi "intalu" (by simp), hatoi "intmultdiv" (by simp),
      Option.bind_eq_bind, Option.map_bind, Option.map_some, Function.comp_def, Section.used,
      bind_atoiProp_change]
  | bpred =>
    have hatoi : ∀ a ∉ ["bimod_table_size"], _ := hf.atoiProp bpred attributes
    simp only [Section.read, readBpred, hatoi "mispredict_penalty" (by simp), Option.bind_eq_bind,
      Option.map_bind, Option.map_some, Function.comp_def, Section.used, bind_atoiProp_change]
  | latency | etc =>
    simp only [Section.read, readLatency, readEtc, Option.bind_eq_bind, Option.map_bind,
      Option.map_some, Function.comp_def, Section.used, bind_atoiProp_change]
  | dl1Cache => exact hcache dl1Cache rfl
  | il1Cache => exact hcache il1Cache rfl
  | ul2Cache => exact hcache ul2Cache rfl

theorem readElement_change (atof : List Char → F) (hf : ChangesUnused f) (attributes : Attributes)
    (name : String) {p p' : Perfmodel F} (h : p'.used = p.used) :
    (readElement atof (attributes.change (f name)) name p').map Perfmodel.used =
      (readElement atof attributes name p).map Perfmodel.used := by
  by_cases hknown : ∃ s : Section, s.name = name
  · obtain ⟨s, rfl⟩ := hknown
    have hput : ∀ q : Perfmodel F,
        Perfmodel.used ∘ s.put q = s.put q.used ∘ s.used := fun q => funext (s.used_put q)
    rw [readElement_name, readElement_name, Option.map_map, Option.map_map, hput, hput,
      ← Option.map_map, ← Option.map_map, s.read_change atof hf, h]
  · have hno : ∀ s : Section, s.name ≠ name := fun s hs => hknown ⟨s, hs⟩
    rw [readElement_unknown _ _ hno, readElement_unknown _ _ hno, Option.map_some, Option.map_some,
      h]

theorem readElements_change (atof : List Char → F) (hf : ChangesUnused f)
    (els : List (String × Attributes)) {p p' : Perfmodel F} (h : p'.used = p.used) :
    (readElements atof (els.map fun el => (el.1, el.2.change (f el.1))) p').map Perfmodel.used =
      (readElements atof els p).map Perfmodel.used := by
  induction els generalizing p p' with
  | nil => exact congrArg some h
  | cons el els ih =>
    rw [List.map_cons, readElements, readElements, List.foldlM_cons, List.foldlM_cons]
    have hel := readElement_change atof hf el.2 el.1 h
    cases hread : readElement atof el.2 el.1 p with
    | none =>
      rw [hread, Option.map_none, Option.map_eq_none_iff] at hel
      simp only [hel, Option.bind_eq_bind, Option.bind_none]
    | some q =>
      rw [hread, Option.map_some] at hel
      obtain ⟨q', hq', hused⟩ := Option.map_eq_some_iff.1 hel
      simp only [hq', Option.bind_eq_bind, Option.bind_some]
      exact ih hused

/-- **A document with other values of unused attributes** is loaded as before, up
to the unused fields. -/
theorem loadConfigfile_change (atof : List Char → F) (hf : ChangesUnused f) (root : XmlNode)
    (p : Perfmodel F) :
    (loadConfigfile atof (some (root.change f)) p).map (fun r => r.2.used) =
      (loadConfigfile atof (some root) p).map fun r => r.2.used := by
  have h := readElements_change atof hf (elements root) (p := init p) rfl
  simp only [loadConfigfile, printElementNames_eq, elements_change, Option.map_map]
  exact h

end Config

end Tqsim
