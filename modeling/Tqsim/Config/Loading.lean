import Tqsim.Config.Model.Configfile

/-!
# What a configuration file sets

The walk over the tree reads the elements in the order of the document, each
over what earlier ones of its name have set. So it is the last element of a
name that counts, wherever it stands and whatever stands around it; and the
walk fails just if some element with a known name, whether it counts or not,
lacks one of the attributes.
-/

namespace Tqsim

namespace Config

variable {F : Type} {atof : List Char → F} {attributes : Attributes} {p p' : Perfmodel F}

/-- The elements that are read. -/
inductive Section where
  | sample
  | core
  | numfu
  | latency
  | etc
  | dl1Cache
  | il1Cache
  | ul2Cache
  | memory
  | bpred
  deriving DecidableEq, Repr

namespace Section

/-- The name of the element. -/
def name : Section → String
  | sample => "sample"
  | core => "core"
  | numfu => "numfu"
  | latency => "latency"
  | etc => "etc"
  | dl1Cache => "dl1_cache"
  | il1Cache => "il1_cache"
  | ul2Cache => "ul2_cache"
  | memory => "memory"
  | bpred => "bpred"

/-- What it sets; of a cache, also that there is one. -/
abbrev Val (F : Type) : Section → Type
  | sample => SampleConfig F
  | core => CoreConfig
  | numfu => NumfuConfig
  | latency => LatencyConfig
  | etc => EtcConfig
  | dl1Cache | il1Cache | ul2Cache => Bool × CacheConfig
  | memory => MemoryConfig
  | bpred => BpredConfig

/-- What is read of its attributes. -/
def read (atof : List Char → F) (attributes : Attributes) : (s : Section) → Option (s.Val F)
  | sample => readSample atof attributes
  | core => readCore attributes
  | numfu => readNumfu attributes
  | latency => readLatency attributes
  | etc => readEtc attributes
  | dl1Cache | il1Cache | ul2Cache => (readCache attributes).map (true, ·)
  | memory => readMemory attributes
  | bpred => readBpred attributes

/-- What a configuration has of it. -/
def get (p : Perfmodel F) : (s : Section) → s.Val F
  | sample => p.sample
  | core => p.core
  | numfu => p.numfu
  | latency => p.latency
  | etc => p.etc
  | dl1Cache => (p.existDL1, p.dl1)
  | il1Cache => (p.existIL1, p.il1)
  | ul2Cache => (p.existUL2, p.ul2)
  | memory => p.mem
  | bpred => p.bpred

/-- A configuration in which it is set. -/
def put (p : Perfmodel F) : (s : Section) → s.Val F → Perfmodel F
  | sample, v => { p with sample := v }
  | core, v => { p with core := v }
  | numfu, v => { p with numfu := v }
  | latency, v => { p with latency := v }
  | etc, v => { p with etc := v }
  | dl1Cache, v => { p with existDL1 := v.1, dl1 := v.2 }
  | il1Cache, v => { p with existIL1 := v.1, il1 := v.2 }
  | ul2Cache, v => { p with existUL2 := v.1, ul2 := v.2 }
  | memory, v => { p with mem := v }
  | bpred, v => { p with bpred := v }

theorem get_put_self (p : Perfmodel F) (s : Section) (v : s.Val F) : s.get (s.put p v) = v := by
  cases s <;> rfl

theorem get_put_of_ne (p : Perfmodel F) {s s' : Section} (hne : s ≠ s') (v : s'.Val F) :
    s.get (s'.put p v) = s.get p := by
  cases s <;> cases s' <;> first | rfl | exact absurd rfl hne

/-- The sections are all of the configuration. -/
theorem eq_of_get (h : ∀ s : Section, s.get p = s.get p') : p = p' := by
  obtain ⟨hd, hdl1⟩ := Prod.mk.inj (h dl1Cache)
  obtain ⟨hi, hil1⟩ := Prod.mk.inj (h il1Cache)
  obtain ⟨hu, hul2⟩ := Prod.mk.inj (h ul2Cache)
  have h1 : p.sample = p'.sample := h sample
  have h2 : p.core = p'.core := h core
  have h3 : p.numfu = p'.numfu := h numfu
  have h4 : p.latency = p'.latency := h latency
  have h5 : p.etc = p'.etc := h etc
  have h6 : p.mem = p'.mem := h memory
  have h7 : p.bpred = p'.bpred := h bpred
  cases p
  cases p'
  simp_all

theorem name_injective : Function.Injective name := by
  intro s s' h
  cases s <;> cases s' <;> first | rfl | exact absurd h (by decide)

end Section

/-! ## One element -/

variable {name : String}

/-- An element with a known name sets its section. -/
theorem readElement_name (atof : List Char → F) (attributes : Attributes) (s : Section)
    (p : Perfmodel F) :
    readElement atof attributes s.name p = (s.read atof attributes).map (s.put p) := by
  cases s
  case dl1Cache | il1Cache | ul2Cache =>
    show Option.map _ _ = ((readCache attributes).map _).map _
    rw [Option.map_map]
    rfl
  all_goals rfl

/-- One with another name is passed over. -/
theorem readElement_unknown (atof : List Char → F) (attributes : Attributes)
    (h : ∀ s : Section, s.name ≠ name) (p : Perfmodel F) :
    readElement atof attributes name p = some p := by
  unfold readElement
  split
  · exact absurd rfl (h .sample)
  · exact absurd rfl (h .core)
  · exact absurd rfl (h .numfu)
  · exact absurd rfl (h .latency)
  · exact absurd rfl (h .etc)
  · exact absurd rfl (h .dl1Cache)
  · exact absurd rfl (h .il1Cache)
  · exact absurd rfl (h .ul2Cache)
  · exact absurd rfl (h .memory)
  · exact absurd rfl (h .bpred)
  · rfl

/-- **An element is read** just if it has all attributes of its section. -/
theorem readElement_isSome_iff (p : Perfmodel F) :
    (readElement atof attributes name p).isSome ↔
      ∀ s : Section, s.name = name → (s.read atof attributes).isSome := by
  by_cases hknown : ∃ s : Section, s.name = name
  · obtain ⟨s, rfl⟩ := hknown
    rw [readElement_name, Option.isSome_map]
    constructor
    · intro h s' hs'
      rw [Section.name_injective hs']
      exact h
    · intro h
      exact h s rfl
  · rw [readElement_unknown atof attributes (fun s hs => hknown ⟨s, hs⟩)]
    exact iff_of_true rfl fun s hs => absurd ⟨s, hs⟩ hknown

/-- **What it leaves** in each section. -/
theorem get_readElement (h : readElement atof attributes name p = some p') (s : Section) :
    s.get p' = if s.name = name then (s.read atof attributes).getD (s.get p) else s.get p := by
  by_cases hknown : ∃ s : Section, s.name = name
  · obtain ⟨s', rfl⟩ := hknown
    rw [readElement_name] at h
    obtain ⟨v, hv, rfl⟩ := Option.map_eq_some_iff.1 h
    by_cases heq : s = s'
    · subst heq
      rw [if_pos rfl, Section.get_put_self, hv, Option.getD_some]
    · rw [if_neg fun hname => heq (Section.name_injective hname), Section.get_put_of_ne p heq]
  · rw [readElement_unknown atof attributes (fun s hs => hknown ⟨s, hs⟩)] at h
    rw [if_neg fun hname => hknown ⟨s, hname⟩, Option.some.inj h]

/-! ## The document -/

/-- The elements of a tree, in the order of the document. -/
def elements : XmlNode → List (String × Attributes)
  | .null => []
  | .element name attributes children next =>
    (name, attributes) :: (elements children ++ elements next)
  | .other children next => elements children ++ elements next

/-- The elements are read one by one. -/
def readElements (atof : List Char → F) (els : List (String × Attributes)) (p : Perfmodel F) :
    Option (Perfmodel F) :=
  els.foldlM (fun p el => readElement atof el.2 el.1 p) p

/-- **The walk** is in the order of the document. -/
theorem printElementNames_eq (atof : List Char → F) (node : XmlNode) (p : Perfmodel F) :
    printElementNames atof node p = readElements atof (elements node) p := by
  induction node generalizing p with
  | null => rfl
  | element name attributes children next ihc ihn =>
    simp only [printElementNames, elements, readElements, List.foldlM_cons, List.foldlM_append,
      Option.bind_eq_bind]
    refine congrArg _ (funext fun p => ?_)
    rw [ihc]
    exact congrArg _ (funext ihn)
  | other children next ihc ihn =>
    simp only [printElementNames, elements, readElements, List.foldlM_append, Option.bind_eq_bind]
    rw [ihc]
    exact congrArg _ (funext ihn)

/-- The attributes of the last element with a name. -/
def lastElement (name : String) : List (String × Attributes) → Option Attributes
  | [] => none
  | el :: els => (lastElement name els).or (if el.1 = name then some el.2 else none)

theorem mem_of_lastElement {els : List (String × Attributes)}
    (h : lastElement name els = some attributes) : (name, attributes) ∈ els := by
  induction els with
  | nil => cases h
  | cons el els ih =>
    rcases Option.or_eq_some_iff.1 h with hlater | ⟨-, hhere⟩
    · exact List.mem_cons_of_mem _ (ih hlater)
    · split at hhere
      next hname =>
        rw [← hname, ← Option.some.inj hhere]
        exact List.mem_cons_self
      next => cases hhere

/-- **All elements are read** just if each has its attributes. -/
theorem readElements_isSome_iff {els : List (String × Attributes)} {p : Perfmodel F} :
    (readElements atof els p).isSome ↔
      ∀ el ∈ els, ∀ s : Section, s.name = el.1 → (s.read atof el.2).isSome := by
  induction els generalizing p with
  | nil => exact iff_of_true rfl (by simp)
  | cons el els ih =>
    rw [readElements, List.foldlM_cons, List.forall_mem_cons, ← readElement_isSome_iff p]
    cases hread : readElement atof el.2 el.1 p with
    | none => simp
    | some q =>
      simp only [Option.isSome_some, true_and]
      exact ih

/-- **The last element of a name counts.** -/
theorem get_readElements {els : List (String × Attributes)} {p p' : Perfmodel F}
    (h : readElements atof els p = some p') (s : Section) :
    s.get p' = ((lastElement s.name els).bind (s.read atof ·)).getD (s.get p) := by
  induction els generalizing p with
  | nil =>
    obtain rfl := Option.some.inj h
    rfl
  | cons el els ih =>
    have hall := readElements_isSome_iff.1 (Option.isSome_iff_exists.2 ⟨p', h⟩)
    obtain ⟨-, hall⟩ := List.forall_mem_cons.1 hall
    rw [readElements, List.foldlM_cons] at h
    obtain ⟨q, hq, hrest⟩ := Option.bind_eq_some_iff.1 h
    rw [ih hrest, get_readElement hq, lastElement]
    cases hlast : lastElement s.name els with
    | none =>
      by_cases hname : s.name = el.1
      · simp [hname]
      · simp [hname, Ne.symm hname]
    | some attributes =>
      -- a later element of the name, which is read
      obtain ⟨v, hv⟩ := Option.isSome_iff_exists.1 (hall _ (mem_of_lastElement hlast) s rfl)
      simp [hv]

/-- **`load_configfile`.** It reads a document just if every element with a
known name, wherever it stands, has all attributes that are read of such
elements; and the configuration then holds in each section what the last
element of its name says, or if there is none what it held before, except
that a cache without an element does not exist. -/
theorem loadConfigfile_eq_some_iff (atof : List Char → F) (root : XmlNode) (p p' : Perfmodel F) :
    loadConfigfile atof (some root) p = some (0, p') ↔
      (∀ el ∈ elements root, ∀ s : Section, s.name = el.1 → (s.read atof el.2).isSome) ∧
      ∀ s : Section, s.get p' =
        ((lastElement s.name (elements root)).bind (s.read atof ·)).getD (s.get (init p)) := by
  have hload : loadConfigfile atof (some root) p = some (0, p') ↔
      readElements atof (elements root) (init p) = some p' := by
    simp [loadConfigfile, printElementNames_eq]
  rw [hload]
  constructor
  · intro h
    exact ⟨readElements_isSome_iff.1 (Option.isSome_iff_exists.2 ⟨p', h⟩), get_readElements h⟩
  · rintro ⟨hall, hget⟩
    obtain ⟨q, hq⟩ := Option.isSome_iff_exists.1 (readElements_isSome_iff (p := init p).2 hall)
    have heq : q = p' := Section.eq_of_get fun s => (get_readElements hq s).trans (hget s).symm
    rw [hq, heq]

end Config

end Tqsim
