import AgenticPlatform.Basics
import AgenticPlatform.Dict
import AgenticPlatform.Enums
import AgenticPlatform.TokenScanning
import Mathlib.Data.Finset.Sort
import Mathlib.Data.String.Basic

/-!
# Prompt templates

A template is a text with placeholders in it, and rendering puts a value in the place of each. A
text is taken apart in one way: what is put in is not looked at again, and braces that are no
placeholder stay.
-/

namespace AgenticPlatform.Prompts

open TokenScanning

/-! ### Placeholders -/

/-- `[a-zA-Z_]`. -/
def isNameStart (c : Char) : Bool := c.isAlpha || c == '_'

/-- `[a-zA-Z0-9_]`. -/
def isNameChar (c : Char) : Bool := c.isAlphanum || c == '_'

/-- `[a-zA-Z_][a-zA-Z0-9_]*`. -/
def IsName (name : List Char) : Prop :=
  (∃ c ∈ name.head?, isNameStart c = true) ∧ ∀ c ∈ name, isNameChar c = true

instance (name : List Char) : Decidable (IsName name) :=
  inferInstanceAs (Decidable ((∃ c ∈ name.head?, isNameStart c = true) ∧ _))

/-- A match of `_VARIABLE_RE`. -/
structure Placeholder where
  lead : List Char
  name : List Char
  trail : List Char
  lead_space : ∀ c ∈ lead, isSpace c = true
  isName : IsName name
  trail_space : ∀ c ∈ trail, isSpace c = true
deriving DecidableEq

def opening : List Char := ['{', '{']

def closing : List Char := ['}', '}']

/-- What stands between the opening braces and the end. -/
def Placeholder.inner (placeholder : Placeholder) : List Char :=
  placeholder.lead ++ (placeholder.name ++ (placeholder.trail ++ closing))

/-- The text of a match. -/
def Placeholder.shape (placeholder : Placeholder) : List Char := opening ++ placeholder.inner

/-- `match.group(1)`. -/
def Placeholder.group (placeholder : Placeholder) : String := String.ofList placeholder.name

theorem all_takeWhile {test : Char → Bool} {text : List Char} :
    ∀ c ∈ text.takeWhile test, test c = true :=
  List.all_eq_true.mp List.all_takeWhile

/-- `_VARIABLE_RE.match`: the classes of blanks, names and braces have no character in common, so
    nothing is given back. -/
def matchVariable (text : List Char) : Option Placeholder :=
  let named := (text.drop 2).dropWhile isSpace
  let behind := named.dropWhile isNameChar
  if h : opening <+: text ∧ IsName (named.takeWhile isNameChar) ∧
      closing <+: behind.dropWhile isSpace then
    some ⟨(text.drop 2).takeWhile isSpace, named.takeWhile isNameChar, behind.takeWhile isSpace,
      all_takeWhile, h.2.1, all_takeWhile⟩
  else none

theorem isNameChar_of_start {c : Char} (h : isNameStart c = true) : isNameChar c = true := by
  simp only [isNameStart, isNameChar, Char.isAlphanum, Bool.or_eq_true] at h ⊢
  tauto

/-- A character of a name is no blank. -/
theorem isSpace_of_nameChar {c : Char} (h : isNameChar c = true) : isSpace c = false := by
  rcases Bool.or_eq_true_iff.mp h with hletter | hline
  · exact isSpace_of_between (between_of_isAlphanum hletter)
  · rw [eq_of_beq hline]
    rfl

theorem isNameChar_of_space {c : Char} (h : isSpace c = true) : isNameChar c = false := by
  by_contra hname
  rw [isSpace_of_nameChar (Bool.eq_true_of_not_eq_false hname)] at h
  cases h

/-- Where the next character is not of the class, the run of the class ends. -/
theorem whileSpan {test : Char → Bool} {run : List Char} (text : List Char) (hrun : ∀ c ∈ run, test c = true)
    (hend : ∀ c ∈ text.head?, test c = false) :
    (run ++ text).takeWhile test = run ∧ (run ++ text).dropWhile test = text := by
  rw [List.takeWhile_append_of_pos hrun, List.dropWhile_append_of_pos hrun]
  rcases text with - | ⟨c, text⟩
  · exact ⟨List.append_nil run, rfl⟩
  · have hc := hend c rfl
    rw [List.takeWhile_cons, List.dropWhile_cons, hc]
    exact ⟨List.append_nil run, rfl⟩

namespace Placeholder

variable (placeholder : Placeholder)

theorem head_inner_name (later : List Char) :
    ∃ c ∈ (placeholder.name ++ later).head?, isNameStart c = true := by
  rcases placeholder.isName.1 with ⟨c, hc, hstart⟩
  refine ⟨c, ?_, hstart⟩
  rw [List.head?_append, Option.mem_def.mp hc]
  rfl

/-- What is matched is found again, whatever follows it. -/
theorem matchVariable_shape (later : List Char) :
    matchVariable (placeholder.shape ++ later) = some placeholder := by
  rcases placeholder with ⟨lead, name, trail, hlead, hname, htrail⟩
  have hinner : ((Placeholder.mk lead name trail hlead hname htrail).shape ++ later).drop 2 =
      lead ++ (name ++ (trail ++ (closing ++ later))) := by
    simp only [shape, inner, opening, List.append_assoc, List.cons_append, List.nil_append,
      List.drop_succ_cons, List.drop_zero]
  have hblanks := whileSpan (name ++ (trail ++ (closing ++ later))) hlead (by
    intro c hc
    rcases head_inner_name ⟨lead, name, trail, hlead, hname, htrail⟩ (trail ++ (closing ++ later))
      with ⟨c', hc', hstart⟩
    cases Option.mem_unique hc hc'
    exact isSpace_of_nameChar (isNameChar_of_start hstart))
  have hnames := whileSpan (trail ++ (closing ++ later)) hname.2 (by
    intro c hc
    rcases trail with - | ⟨blank, trail⟩
    · cases hc
      rfl
    · cases hc
      exact isNameChar_of_space (htrail _ List.mem_cons_self))
  have htrails := whileSpan (closing ++ later) htrail (by
    intro c hc
    cases hc
    rfl)
  have hopen : opening <+: (Placeholder.mk lead name trail hlead hname htrail).shape ++ later :=
    ⟨_, (List.append_assoc ..).symm⟩
  rw [matchVariable]
  simp only [hinner, hblanks.1, hblanks.2, hnames.1, hnames.2, htrails.1, htrails.2]
  rw [dif_pos ⟨hopen, hname, List.prefix_append ..⟩]

end Placeholder

theorem shape_of_match {text : List Char} {placeholder : Placeholder}
    (h : matchVariable text = some placeholder) : placeholder.shape <+: text := by
  rw [matchVariable] at h
  split at h
  · rename_i hmatch
    rcases hmatch.1 with ⟨inner, hopen⟩
    rcases hmatch.2.2 with ⟨later, hclose⟩
    cases h
    refine ⟨later, ?_⟩
    have hinner : text.drop 2 = inner := by
      rw [← hopen]
      rfl
    simp only [Placeholder.shape, Placeholder.inner, List.append_assoc]
    rw [hclose, List.takeWhile_append_dropWhile, List.takeWhile_append_dropWhile,
      List.takeWhile_append_dropWhile, hinner, hopen]
  · cases h

namespace Placeholder

variable (placeholder : Placeholder)

theorem not_brace_of_nameChar {c : Char} (h : isNameChar c = true) : c ≠ '{' := by
  rintro rfl
  cases h

theorem brace_not_mem_inner : '{' ∉ placeholder.inner := by
  intro hmem
  simp only [inner, closing, List.mem_append] at hmem
  rcases hmem with hlead | hname | htrail | hclose
  · cases placeholder.lead_space _ hlead
  · exact not_brace_of_nameChar (placeholder.isName.2 _ hname) rfl
  · cases placeholder.trail_space _ htrail
  · revert hclose
    decide

theorem inner_ne : placeholder.inner ≠ [] := by
  intro hnil
  simp only [inner, closing, List.append_eq_nil_iff] at hnil
  cases hnil.2.2.2

/-- No placeholder begins inside another one. -/
theorem shape_apart (other : Placeholder) {before after : List Char}
    (h : placeholder.shape = before ++ after) (hbefore : before ≠ []) (hafter : after ≠ []) :
    ¬ other.shape <+: after ∧ ¬ after <+: other.shape := by
  rcases before with - | ⟨first, before⟩
  · exact absurd rfl hbefore
  rcases List.cons_eq_cons.mp h with ⟨-, hlater⟩
  rcases after with - | ⟨second, after⟩
  · exact absurd rfl hafter
  rcases before with - | ⟨brace, before⟩
  · -- the second brace of the opening: it is not followed by another one
    rcases List.cons_eq_cons.mp hlater with ⟨-, hinner⟩
    rcases after with - | ⟨third, after⟩
    · exact absurd hinner placeholder.inner_ne
    · have hthird : third ≠ '{' := by
        rintro rfl
        refine placeholder.brace_not_mem_inner ?_
        have hinner' : placeholder.inner = '{' :: after := hinner
        rw [hinner']
        exact List.mem_cons_self
      refine ⟨fun hprefix => ?_, fun hprefix => ?_⟩
      · rcases List.cons_prefix_cons.mp hprefix with ⟨-, hprefix⟩
        exact hthird (List.cons_prefix_cons.mp hprefix).1.symm
      · rcases List.cons_prefix_cons.mp hprefix with ⟨-, hprefix⟩
        exact hthird (List.cons_prefix_cons.mp hprefix).1
  · rcases List.cons_eq_cons.mp hlater with ⟨-, hinner⟩
    have hsecond : second ≠ '{' := by
      rintro rfl
      refine placeholder.brace_not_mem_inner ?_
      have hinner' : placeholder.inner = before ++ '{' :: after := hinner
      rw [hinner']
      exact List.mem_append_right _ List.mem_cons_self
    exact ⟨fun hprefix => hsecond (List.cons_prefix_cons.mp hprefix).1.symm,
      fun hprefix => hsecond (List.cons_prefix_cons.mp hprefix).1⟩

end Placeholder

theorem placeholders : Tokens Placeholder.shape matchVariable where
  found text token := by
    constructor
    · exact shape_of_match
    · rintro ⟨later, rfl⟩
      exact token.matchVariable_shape later
  shape_ne token := List.cons_ne_nil _ _
  apart token other _ _ := token.shape_apart other

/-- A text taken apart, as `finditer` and `sub` do. -/
def cutOf (body : String) : Cut Char Placeholder := scan Placeholder.shape matchVariable body.toList

/-! ### Templates -/

inductive PromptError where
  | notFound (role : AgentRole) (version : Option String)
  | render (role : AgentRole) (version : String) (missing : List String)
  /-- What reading the file raised. -/
  | unreadable (text : String)
deriving DecidableEq, Repr

/-- A prompt ready to send, carrying the version that produced it. -/
structure RenderedPrompt where
  role : AgentRole
  version : String
  text : String
deriving DecidableEq, Repr

def variablesOf (body : String) : Finset String :=
  ((cutOf body).tokens.map Placeholder.group).toFinset

/-- One immutable (role, version) template. -/
structure PromptTemplate where
  role : AgentRole
  version : String
  body : String
  /-- `variables` -/
  declared : Finset String
  declared_eq : declared = variablesOf body
deriving DecidableEq

namespace PromptTemplate

def fromText (role : AgentRole) (version body : String) : PromptTemplate where
  role := role
  version := version
  body := body
  declared := variablesOf body
  declared_eq := rfl

variable {V : Type} (str : V → String)

/-- `str(variables[name])`, for a name that is given. -/
def valueOf (given : Dict String V) (placeholder : Placeholder) : List Char :=
  (((given.lookup placeholder.group).map str).getD "").toList

/-- What is not given, sorted. -/
def missing (template : PromptTemplate) (given : Dict String V) : List String :=
  (template.declared \ given.keys.toFinset).sort (· ≤ ·)

/-- Substitute every placeholder, or fail naming the ones missing. -/
def render (template : PromptTemplate) (given : Dict String V) :
    Except PromptError RenderedPrompt :=
  if template.missing given ≠ [] then
    .error (.render template.role template.version (template.missing given))
  else
    .ok ⟨template.role, template.version,
      String.ofList ((cutOf template.body).written (valueOf str given))⟩

/-! ### What rendering does -/

variable {str} {template : PromptTemplate} {given : Dict String V} {cut : Cut Char Placeholder}

/-- The text is taken apart as the cut says, and nothing between its placeholders is one. -/
def Cuts (cut : Cut Char Placeholder) (body : String) : Prop :=
  cut.written Placeholder.shape = body.toList ∧ cut.Gaps (Free Placeholder.shape)

theorem cuts_cutOf (body : String) : Cuts (cutOf body) body :=
  ⟨placeholders.written_scan _, placeholders.gaps_scan _⟩

theorem Cuts.eq {body : String} (h : Cuts cut body) : cutOf body = cut := by
  rw [cutOf, ← h.1]
  exact placeholders.scan_written h.2

theorem mem_declared {name : String} :
    name ∈ template.declared ↔ ∃ token ∈ (cutOf template.body).tokens, token.group = name := by
  rw [template.declared_eq, variablesOf, List.mem_toFinset, List.mem_map]

theorem mem_missing {name : String} :
    name ∈ template.missing given ↔ name ∈ template.declared ∧ given.lookup name = none := by
  rw [missing, Finset.mem_sort, Finset.mem_sdiff, List.mem_toFinset, AList.lookup_eq_none]
  rfl

theorem missing_eq_nil : template.missing given = [] ↔
    ∀ token ∈ (cutOf template.body).tokens, ∃ value, given.lookup token.group = some value := by
  rw [List.eq_nil_iff_forall_not_mem]
  constructor
  · intro hnone token htoken
    rw [← Option.ne_none_iff_exists']
    intro habsent
    exact hnone _ (mem_missing.mpr ⟨mem_declared.mpr ⟨token, htoken, rfl⟩, habsent⟩)
  · intro hall name hname
    rcases mem_missing.mp hname with ⟨hdeclared, habsent⟩
    rcases mem_declared.mp hdeclared with ⟨token, htoken, rfl⟩
    rcases hall token htoken with ⟨value, hvalue⟩
    rw [hvalue] at habsent
    cases habsent

/-- Cuts are written alike where their tokens are. -/
theorem written_congr {shape shape' : Placeholder → List Char}
    (h : ∀ token ∈ cut.tokens, shape token = shape' token) :
    cut.written shape = cut.written shape' := by
  rw [Cut.written, Cut.written]
  congr 1
  rw [List.flatMap_def, List.flatMap_def]
  congr 1
  apply List.map_congr_left
  intro part hpart
  rw [h part.2 (List.mem_map_of_mem hpart)]

theorem render_ok (value : Placeholder → V)
    (hgiven : ∀ token ∈ (cutOf template.body).tokens, given.lookup token.group = some (value token)) :
    template.render str given = .ok ⟨template.role, template.version,
      String.ofList ((cutOf template.body).written fun token => (str (value token)).toList)⟩ := by
  have hnone : template.missing given = [] :=
    missing_eq_nil.mpr fun token htoken => ⟨value token, hgiven token htoken⟩
  rw [render, if_neg (not_not_intro hnone)]
  have hvalues : ∀ token ∈ (cutOf template.body).tokens,
      valueOf str given token = (str (value token)).toList := by
    intro token htoken
    rw [valueOf, hgiven token htoken]
    rfl
  rw [written_congr hvalues]

/-- A template is taken apart in exactly one way into placeholders and texts without any. It is
    rendered if and only if every placeholder's name is given a value, to the texts with the values
    in the places of the placeholders, as they are; otherwise exactly the names without a value are
    reported, in order. -/
theorem render_pieces (str : V → String) (template : PromptTemplate) (given : Dict String V) :
    ∃ cut, Cuts cut template.body ∧ (∀ other, Cuts other template.body → other = cut) ∧
      (∀ value : Placeholder → V,
        (∀ token ∈ cut.tokens, given.lookup token.group = some (value token)) →
        template.render str given = .ok ⟨template.role, template.version,
          String.ofList (cut.written fun token => (str (value token)).toList)⟩) ∧
      ∀ error, template.render str given = .error error ↔
        ∃ names, error = .render template.role template.version names ∧ names ≠ [] ∧
          names.Pairwise (· < ·) ∧
          ∀ name, name ∈ names ↔
            given.lookup name = none ∧ ∃ token ∈ cut.tokens, token.group = name := by
  refine ⟨cutOf template.body, cuts_cutOf _, fun other hother => hother.eq.symm,
    fun value => render_ok value, fun error => ?_⟩
  have hmem : ∀ name, name ∈ template.missing given ↔ given.lookup name = none ∧
      ∃ token ∈ (cutOf template.body).tokens, token.group = name := by
    intro name
    rw [mem_missing, mem_declared, and_comm]
  have hsorted : (template.missing given).Pairwise (· < ·) := (Finset.sortedLT_sort _).pairwise
  rw [render]
  split
  · rename_i hmissing
    constructor
    · intro herror
      cases herror
      exact ⟨_, rfl, hmissing, hsorted, hmem⟩
    · rintro ⟨names, rfl, -, hnames, hall⟩
      -- two sorted lists with the same names in them
      have hsame : names = template.missing given :=
        hnames.eq_of_mem_iff hsorted fun name => (hall name).trans (hmem name).symm
      rw [hsame]
  · rename_i hnone
    refine iff_of_false nofun ?_
    rintro ⟨names, -, hne, -, hall⟩
    rcases List.exists_mem_of_ne_nil names hne with ⟨name, hname⟩
    have hin := (hmem name).mpr ((hall name).mp hname)
    rw [not_not.mp hnone] at hin
    cases hin

end PromptTemplate

end AgenticPlatform.Prompts
