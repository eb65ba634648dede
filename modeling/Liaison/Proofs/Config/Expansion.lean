import Liaison.Config.Expand
import Liaison.Proofs.Text.Utf8
import Mathlib.Data.List.TakeWhile

/-!
# Putting values in place of references

What a reference stands for is put in its place as it is, and everything else is copied. A text in which every reference
is closed can be taken apart from what follows it, so no value is ever looked at again.
-/

namespace Liaison

variable {env : Environment} {values : String → Option Bytes} {cs ds name rest : List Char}

/-! ## What a scan meets -/

/-- A scan from the left finds every reference closed: it passes a character that begins no reference, and takes a
reference up to the first closing brace, whatever signs there are before it. -/
inductive Closes : List Char → Prop
  | nil : Closes []
  | char {c : Char} {cs : List Char} (hc : ¬ (c = '$' ∧ cs.head? = some '\x7b')) (h : Closes cs) : Closes (c :: cs)
  | reference {name cs : List Char} (hname : '\x7d' ∉ name) (h : Closes cs) :
    Closes ('$' :: '\x7b' :: (name ++ '\x7d' :: cs))

/-- The signs that begin a reference stand somewhere in the text. -/
def Refers (cs : List Char) : Prop :=
  ['$', '\x7b'] <:+: cs

instance : Decidable (Refers cs) :=
  inferInstanceAs (Decidable (_ <:+: _))

theorem closes_of_not_refers (h : ¬ Refers cs) : Closes cs := by
  induction cs with
  | nil => exact .nil
  | cons c cs ih =>
    refine .char ?_ (ih fun hcs => h (hcs.trans (List.suffix_cons c cs).isInfix))
    rintro ⟨rfl, hhead⟩
    obtain ⟨ds, rfl⟩ := List.head?_eq_some_iff.mp hhead
    exact h (List.prefix_append ['$', '\x7b'] ds).isInfix

/-! ## One step of a scan -/

theorem takeWhile_append_closing (h : '\x7d' ∉ name) : (name ++ '\x7d' :: cs).takeWhile (· ≠ '\x7d') = name := by
  rw [List.takeWhile_append_of_pos fun c hc => by simpa using ne_of_mem_of_not_mem hc h]
  simp

theorem dropWhile_append_closing (h : '\x7d' ∉ name) :
    (name ++ '\x7d' :: cs).dropWhile (· ≠ '\x7d') = '\x7d' :: cs := by
  rw [List.dropWhile_append_of_pos fun c hc => by simpa using ne_of_mem_of_not_mem hc h]
  simp

theorem expand_char {c : Char} (hc : ¬ (c = '$' ∧ cs.head? = some '\x7b')) :
    expand env (c :: cs) = c :: expand env cs := by
  rw [expand]
  rintro rest rfl rfl
  exact hc ⟨rfl, rfl⟩

theorem expand_reference (h : '\x7d' ∉ name) :
    expand env ('$' :: '\x7b' :: (name ++ '\x7d' :: cs)) = valueOf env name ++ expand env cs := by
  rw [expand]
  split
  · rename_i hnone
    rw [dropWhile_append_closing h] at hnone
    cases hnone
  · rename_i hsome
    rw [dropWhile_append_closing h] at hsome
    cases hsome
    rw [takeWhile_append_closing h]

theorem dropWhile_eq_nil (h : '\x7d' ∉ rest) : rest.dropWhile (· ≠ '\x7d') = [] := by
  rw [List.dropWhile_eq_nil_iff]
  exact fun c hc => by simpa using ne_of_mem_of_not_mem hc h

theorem expand_unclosed (h : '\x7d' ∉ rest) : expand env ('$' :: '\x7b' :: rest) = '$' :: '\x7b' :: rest := by
  rw [expand]
  split
  · rfl
  · rename_i hsome
    rw [dropWhile_eq_nil h] at hsome
    cases hsome

/-- A scan finds every reference closed, or it comes to one that is not, behind which there is no closing brace. -/
theorem closes_or_open (cs : List Char) :
    Closes cs ∨ ∃ before rest, cs = before ++ '$' :: '\x7b' :: rest ∧ Closes before ∧ '\x7d' ∉ rest := by
  fun_induction expand (fun _ => none) cs with
  | case1 => exact .inl .nil
  | case2 rest hnone =>
    refine .inr ⟨[], rest, rfl, .nil, fun hmem => ?_⟩
    simpa using List.dropWhile_eq_nil_iff.mp hnone _ hmem
  | case3 rest c after hsome ih =>
    have hmem : '\x7d' ∈ rest := by
      by_contra hnot
      rw [dropWhile_eq_nil hnot] at hsome
      cases hsome
    obtain ⟨name, after, rfl, hname⟩ := List.eq_append_cons_of_mem hmem
    rw [dropWhile_append_closing hname] at hsome
    cases hsome
    rcases ih with hclosed | ⟨before, rest, rfl, hbefore, hrest⟩
    · exact .inl (.reference hname hclosed)
    · exact .inr ⟨'$' :: '\x7b' :: (name ++ '\x7d' :: before), rest, by simp, .reference hname hbefore, hrest⟩
  | case4 c cs hc ih =>
    have hbegins : ∀ ds, ds <+: cs → ¬ (c = '$' ∧ ds.head? = some '\x7b') := by
      rintro ds ⟨more, rfl⟩ ⟨rfl, hhead⟩
      obtain ⟨ds, rfl⟩ := List.head?_eq_some_iff.mp hhead
      exact hc _ rfl rfl
    rcases ih with hclosed | ⟨before, rest, rfl, hbefore, hrest⟩
    · exact .inl (.char (hbegins cs List.prefix_rfl) hclosed)
    · exact .inr ⟨c :: before, rest, rfl, .char (hbegins before (List.prefix_append ..)) hbefore, hrest⟩

/-! ## Whole texts -/

theorem expand_of_not_refers (h : ¬ Refers cs) : expand env cs = cs := by
  induction closes_of_not_refers h with
  | nil => rw [expand]
  | @char c cs hc _ ih => rw [expand_char hc, ih fun hcs => h (hcs.trans (List.suffix_cons c cs).isInfix)]
  | @reference name cs => exact absurd (List.prefix_append ['$', '\x7b'] (name ++ '\x7d' :: cs)).isInfix h

/-- What stands behind closed references is expanded on its own, unless the two parts form the signs of a reference
where they meet. -/
theorem expand_append (hcs : Closes cs) (hds : ¬ (cs.getLast? = some '$' ∧ ds.head? = some '\x7b')) :
    expand env (cs ++ ds) = expand env cs ++ expand env ds := by
  induction hcs with
  | nil => rw [expand, List.nil_append, List.nil_append]
  | @char c cs hc _ ih =>
    have hmeet : ¬ (c = '$' ∧ (cs ++ ds).head? = some '\x7b') := by
      cases cs with
      | nil => simpa using hds
      | cons d cs => simpa using hc
    have hrest : ¬ (cs.getLast? = some '$' ∧ ds.head? = some '\x7b') := by
      rintro ⟨hlast, hhead⟩
      exact hds ⟨by rw [List.getLast?_cons, hlast]; rfl, hhead⟩
    rw [List.cons_append, expand_char hmeet, ih hrest, expand_char hc, List.cons_append]
  | @reference name cs hname _ ih =>
    have hrest : ¬ (cs.getLast? = some '$' ∧ ds.head? = some '\x7b') := by
      rintro ⟨hlast, hhead⟩
      refine hds ⟨?_, hhead⟩
      simp [List.getLast?_cons, List.getLast?_append, hlast]
    rw [List.cons_append, List.cons_append, List.append_assoc, List.cons_append, expand_reference hname, ih hrest,
      expand_reference hname, List.append_assoc]

/-! ## Values -/

/-- What a reference to a name stands for: the value of the variable, or nothing if there is no name, no such variable,
or no text in it. -/
inductive StandsFor (values : String → Option Bytes) : String → String → Prop
  | value {name text : String} (hname : name ≠ "") (h : values name = some (Utf8.ofString text)) :
    StandsFor values name text
  | unnamed : StandsFor values "" ""
  | unset {name : String} (h : values name = none) : StandsFor values name ""
  | garbled {name : String} {bs : Bytes} (h : values name = some bs) (hbs : ∀ text, bs ≠ Utf8.ofString text) :
    StandsFor values name ""

theorem ofBytes_eq_some_iff {name text : String} :
    Environment.ofBytes values name = some text ↔ values name = some (Utf8.ofString text) := by
  rw [Environment.ofBytes, Option.bind_eq_some_iff]
  simp only [Utf8.toString?_eq_some_iff]
  constructor
  · rintro ⟨_, h, rfl⟩
    exact h
  · exact fun h => ⟨_, h, rfl⟩

theorem ofBytes_eq_none_iff {name : String} :
    Environment.ofBytes values name = none ↔ ∀ text, values name ≠ some (Utf8.ofString text) := by
  simp only [Option.eq_none_iff_forall_ne_some, ne_eq, ofBytes_eq_some_iff]

theorem valueOf_eq_iff {name text : String} :
    valueOf (.ofBytes values) name.toList = text.toList ↔ StandsFor values name text := by
  constructor
  · intro h
    have htext : text = String.ofList (valueOf (.ofBytes values) name.toList) := by rw [h, String.ofList_toList]
    subst htext
    by_cases hname : name = ""
    · subst hname
      exact .unnamed
    rw [valueOf, if_neg (by simpa using hname), String.ofList_toList, String.ofList_toList]
    cases hset : Environment.ofBytes values name with
    | some text => exact .value hname (ofBytes_eq_some_iff.mp hset)
    | none =>
      have hnot := ofBytes_eq_none_iff.mp hset
      cases hvalue : values name with
      | none => exact .unset hvalue
      | some bs => exact .garbled hvalue fun text hbs => hnot text (hbs ▸ hvalue)
  · intro h
    cases h with
    | value hname hset => simp [valueOf, hname, ofBytes_eq_some_iff.mpr hset]
    | unnamed => rfl
    | unset hunset => simp [valueOf, Environment.ofBytes, hunset]
    | garbled hset hbs =>
      have hnone : Environment.ofBytes values name = none :=
        ofBytes_eq_none_iff.mpr fun text htext => hbs text (Option.some.inj (hset.symm.trans htext))
      simp [valueOf, hnone]

/-! ## Texts -/

def reference (name : String) : String :=
  "$\x7b" ++ name ++ "\x7d"

theorem toList_reference (name : String) : (reference name).toList = '$' :: '\x7b' :: (name.toList ++ ['\x7d']) := by
  simp [reference]

theorem closes_reference {name : String} (h : '\x7d' ∉ name.toList) : Closes (reference name).toList := by
  rw [toList_reference]
  exact .reference h .nil

theorem expandText_reference {name : String} (h : '\x7d' ∉ name.toList) :
    (expandText env (reference name)).toList = valueOf env name.toList := by
  rw [expandText, String.toList_ofList, toList_reference, expand_reference h, expand, List.append_nil]

theorem expandText_append {s t : String} (hs : Closes s.toList)
    (hmeet : ¬ (s.toList.getLast? = some '$' ∧ t.toList.head? = some '\x7b')) :
    expandText env (s ++ t) = expandText env s ++ expandText env t := by
  rw [expandText, String.toList_append, expand_append hs hmeet, String.ofList_append]
  rfl

theorem expandText_unclosed {s t : String} (hs : Closes s.toList) (ht : '\x7d' ∉ t.toList) :
    expandText env (s ++ ("$\x7b" ++ t)) = expandText env s ++ ("$\x7b" ++ t) := by
  have hrest : expandText env ("$\x7b" ++ t) = "$\x7b" ++ t := by
    rw [← String.toList_inj, expandText, String.toList_ofList, String.toList_append]
    exact expand_unclosed ht
  rw [expandText_append hs (by simp), hrest]

theorem expandText_of_not_refers {s : String} (h : ¬ Refers s.toList) : expandText env s = s := by
  rw [expandText, expand_of_not_refers h, String.ofList_toList]

/-- A reference becomes the value of its variable, which is not looked at again, and a text without a closed reference
stays as it is. What stands behind closed references is expanded on its own, and what stands behind one that is not
closed is not expanded at all. -/
theorem expandText_laws :
    (∀ values name text, '\x7d' ∉ name.toList →
      (expandText (.ofBytes values) (reference name) = text ↔ StandsFor values name text)) ∧
    (∀ env s, ¬ Refers s.toList → expandText env s = s) ∧
    (∀ env s t, ¬ Refers s.toList → '\x7d' ∉ t.toList → expandText env (s ++ ("$\x7b" ++ t)) = s ++ ("$\x7b" ++ t)) ∧
    (∀ env s t, Closes s.toList → ¬ (s.toList.getLast? = some '$' ∧ t.toList.head? = some '\x7b') →
      expandText env (s ++ t) = expandText env s ++ expandText env t) ∧
    (∀ values s name text t, Closes s.toList → '\x7d' ∉ name.toList → StandsFor values name text →
      expandText (.ofBytes values) (s ++ (reference name ++ t)) =
        expandText (.ofBytes values) s ++ (text ++ expandText (.ofBytes values) t)) ∧
    ∀ s : String, Closes s.toList ∨ ∃ before rest, s = before ++ ("$\x7b" ++ rest) ∧ Closes before.toList ∧
      '\x7d' ∉ rest.toList ∧ ∀ env, expandText env s = expandText env before ++ ("$\x7b" ++ rest) := by
  have hvalue : ∀ values name text, '\x7d' ∉ name.toList →
      (expandText (.ofBytes values) (reference name) = text ↔ StandsFor values name text) := by
    intro values name text hname
    rw [← String.toList_inj, expandText_reference hname, valueOf_eq_iff]
  refine ⟨hvalue, fun env s => expandText_of_not_refers, ?_, fun env s t => expandText_append, ?_, fun s => ?_⟩
  · intro env s t hs ht
    rw [expandText_unclosed (closes_of_not_refers hs) ht, expandText_of_not_refers hs]
  · intro values s name text t hs hname htext
    have hmeet : ¬ (s.toList.getLast? = some '$' ∧ (reference name ++ t).toList.head? = some '\x7b') := by
      simp [toList_reference]
    have hmeet' : ¬ ((reference name).toList.getLast? = some '$' ∧ t.toList.head? = some '\x7b') := by
      simp [toList_reference, List.getLast?_cons, List.getLast?_append]
    rw [expandText_append hs hmeet, expandText_append (closes_reference hname) hmeet', (hvalue _ _ _ hname).mpr htext]
  · rcases closes_or_open s.toList with hs | ⟨before, rest, hs, hbefore, hrest⟩
    · exact .inl hs
    · have hsplit : s = String.ofList before ++ ("$\x7b" ++ String.ofList rest) := by
        rw [← String.toList_inj, hs]
        simp
      rw [← String.toList_ofList (l := before)] at hbefore
      rw [← String.toList_ofList (l := rest)] at hrest
      exact .inr ⟨_, _, hsplit, hbefore, hrest, fun env => hsplit ▸ expandText_unclosed hbefore hrest⟩

/-- Of these variables one refers to another, and one is no text. -/
def crossValues (name : String) : Option Bytes :=
  if name = "HOME" then some (Utf8.ofString "/h")
  else if name = "LOOP" then some (Utf8.ofString "$\x7bHOME\x7d")
  else if name = "BAD" then some [0xFF]
  else none

theorem expandText_laws_crossing :
    let env := Environment.ofBytes crossValues
    expandText env (reference "BAD") = "" ∧ expandText env "a$\x7d" = "a$\x7d" ∧
      expandText env ("\x7d$" ++ ("$\x7b" ++ "HOME")) = "\x7d$$\x7bHOME" ∧
      expandText env (reference "HOME" ++ reference "$\x7b") = "/h" ∧
      expandText env ("$" ++ (reference "LOOP" ++ "\x7bHOME\x7d")) = "$$\x7bHOME\x7d\x7bHOME\x7d" := by
  intro env
  obtain ⟨hvalue, hplain, hopen, happend, honce, -⟩ := expandText_laws
  have hhome : StandsFor crossValues "HOME" "/h" := .value (by decide) rfl
  have hloop : StandsFor crossValues "LOOP" "$\x7bHOME\x7d" := .value (by decide) rfl
  have hbad : StandsFor crossValues "BAD" "" := by
    refine .garbled rfl fun text htext => ?_
    have hread : Utf8.toString? [0xFF] = none := by
      rw [Utf8.toString?, Utf8.decode?]
      rfl
    rw [Utf8.toString?_eq_some_iff.mpr htext] at hread
    cases hread
  refine ⟨(hvalue _ _ _ (by decide)).mpr hbad, hplain _ _ (by decide), hopen _ _ _ (by decide) (by decide), ?_, ?_⟩
  · rw [happend _ _ _ (closes_reference (by decide)) (by decide), (hvalue _ _ _ (by decide)).mpr hhome,
      (hvalue _ _ _ (by decide)).mpr (.unset rfl)]
    rfl
  · rw [honce _ _ _ _ _ (closes_of_not_refers (by decide)) (by decide) hloop, hplain _ _ (by decide),
      hplain _ _ (by decide)]
    rfl

end Liaison
