import Mathlib.Data.List.Perm.Basic
import Traccoon.Lib.CString

/-!
# Query strings searched for a substring

A query string joins `name=value` parameters with `&`. A search for the text `key=word` in it finds the first parameter whose name
ends in `key` and whose value starts with `word`: the search does not know where a name begins or a value ends. When all names are
distinct, what follows is stated in terms of the parameter that is named `key`.
-/

namespace Query

open CString

/-- No byte of a name or a value: `&`, `=`, a blank, NUL. -/
def separators : Bytes := [38, 61, 32, 0]

/-- A parameter. -/
structure Param where
  name : Bytes
  value : Bytes
  name_text : ∀ b ∈ name, b ∉ separators
  value_text : ∀ b ∈ value, b ∉ separators
  deriving DecidableEq

/-- What follows a parameter in the query. -/
def renderTail : List Param → Bytes
  | [] => []
  | p :: ps => 38 :: (p.name ++ 61 :: (p.value ++ renderTail ps))

/-- The query string. -/
def render : List Param → Bytes
  | [] => []
  | p :: ps => p.name ++ 61 :: (p.value ++ renderTail ps)

/-- The text from the first parameter on whose name ends in `key` and whose value starts with `word`. -/
def found (key word : Bytes) : List Param → Option Bytes
  | [] => none
  | p :: ps => if key <:+ p.name ∧ word <+: p.value then some (key ++ 61 :: (p.value ++ renderTail ps)) else found key word ps

theorem Param.not_mem_name (p : Param) {b : UInt8} (h : b ∈ separators) : b ∉ p.name := fun hb => p.name_text b hb h

theorem Param.not_mem_value (p : Param) {b : UInt8} (h : b ∈ separators) : b ∉ p.value := fun hb => p.value_text b hb h

/-- Apart from `&` and `=`, a query string has no separators. -/
theorem not_mem_render {b : UInt8} (hs : b ∈ separators) (h38 : b ≠ 38) (h61 : b ≠ 61) (ps : List Param) : b ∉ render ps := by
  have htail : ∀ ps : List Param, b ∉ renderTail ps := by
    intro ps
    induction ps with
    | nil => simp [renderTail]
    | cons p ps ih => simp [renderTail, h38, h61, ih, p.not_mem_name hs, p.not_mem_value hs]
  cases ps with
  | nil => simp [render]
  | cons p ps => simp [render, h61, htail, p.not_mem_name hs, p.not_mem_value hs]

/-- So it is a string without blanks. -/
theorem noNul_render (ps : List Param) : NoNul (render ps) ∧ 32 ∉ render ps :=
  ⟨not_mem_render (by decide) (by decide) (by decide) ps, not_mem_render (by decide) (by decide) (by decide) ps⟩

/-! ## One parameter -/

/-- A key and its `=` in front of a text start a parameter with that very name. -/
theorem key_prefix_iff {key word name value : Bytes} (hk : 61 ∉ key) (hn : 61 ∉ name) :
    key ++ 61 :: word <+: name ++ 61 :: value ↔ key = name ∧ word <+: value := by
  induction key generalizing name with
  | nil =>
    cases name with
    | nil => simp
    | cons c name =>
      simp only [List.mem_cons, not_or] at hn
      simp [List.cons_prefix_cons, hn.1]
  | cons c key ih =>
    simp only [List.mem_cons, not_or] at hk
    cases name with
    | nil => simp [List.cons_prefix_cons, Ne.symm hk.1]
    | cons d name =>
      simp only [List.mem_cons, not_or] at hn
      simp only [List.cons_append, List.cons_prefix_cons, ih hk.2 hn.2, List.cons.injEq, and_assoc]

/-- The search in one parameter, which has one `=`. -/
theorem strstr_param {key word name value : Bytes} (hk : 61 ∉ key) (hn : 61 ∉ name) (hv : 61 ∉ value) :
    strstr (name ++ 61 :: value) (key ++ 61 :: word) =
      if key <:+ name ∧ word <+: value then some (key ++ 61 :: value) else none := by
  induction name with
  | nil =>
    have hiff := @key_prefix_iff key word [] value hk hn
    by_cases h : key = [] ∧ word <+: value
    · obtain ⟨rfl, hw⟩ := h
      rw [if_pos ⟨List.suffix_refl _, hw⟩]
      exact strstr_here (hiff.2 ⟨rfl, hw⟩)
    · rw [if_neg (by rwa [List.suffix_nil]), List.nil_append, strstr_cons_skip (fun hp => h (hiff.1 hp)), strstr_eq_none_iff]
      intro hi
      exact hv (hi.subset (by simp))
  | cons c name ih =>
    have hiff := @key_prefix_iff key word (c :: name) value hk hn
    simp only [List.mem_cons, not_or] at hn
    by_cases h : key = c :: name ∧ word <+: value
    · obtain ⟨rfl, hw⟩ := h
      rw [if_pos ⟨List.suffix_refl _, hw⟩]
      exact strstr_here (hiff.2 ⟨rfl, hw⟩)
    · have hskip : ¬key ++ 61 :: word <+: c :: (name ++ 61 :: value) := fun hp => h (hiff.1 hp)
      rw [List.cons_append, strstr_cons_skip hskip, ih hn.2]
      congr 1
      rw [eq_iff_iff, List.suffix_cons_iff]
      constructor
      · rintro ⟨hs, hw⟩
        exact ⟨Or.inr hs, hw⟩
      · rintro ⟨rfl | hs, hw⟩
        · exact absurd ⟨rfl, hw⟩ h
        · exact ⟨hs, hw⟩

/-! ## The whole query -/

/-- The search in a query string: the first parameter that fits. -/
theorem strstr_render {key word : Bytes} (hk : 61 ∉ key) (hk' : 38 ∉ key) (hw : 38 ∉ word) (ps : List Param) :
    strstr (render ps) (key ++ 61 :: word) = found key word ps := by
  have hpat : 38 ∉ key ++ 61 :: word := by simp [hk', hw]
  have hsep : (61 : UInt8) ∈ separators := by decide
  induction ps with
  | nil =>
    rw [render, found, strstr_eq_none_iff, List.infix_nil]
    simp
  | cons p ps ih =>
    have hp := @strstr_param key word p.name p.value hk (p.not_mem_name hsep) (p.not_mem_value hsep)
    cases ps with
    | nil =>
      simp only [render, renderTail, List.append_nil, found]
      exact hp
    | cons q qs =>
      have happ := @strstr_append_cons (p.name ++ 61 :: p.value) (render (q :: qs)) _ 38 hpat (by simp)
      have hr : render (p :: q :: qs) = p.name ++ 61 :: p.value ++ 38 :: render (q :: qs) := by
        simp [render, renderTail]
      rw [hr, happ, hp, found]
      split
      · rename_i t ht
        split at ht
        · rename_i hm
          rw [if_pos hm, ← Option.some.inj ht]
          simp [renderTail, render]
        · cases ht
      · rename_i ht
        split at ht
        · cases ht
        · rename_i hm
          rw [if_neg hm, ih]

/-- Bytes in front of the first name make no difference for a key that has none of the first of them. -/
theorem strstr_cons_render {key word : Bytes} {c : UInt8} (hk : 61 ∉ key) (hk' : 38 ∉ key) (hw : 38 ∉ word) (hc : c ∉ key)
    (hc61 : c ≠ 61) (ps : List Param) : strstr (c :: render ps) (key ++ 61 :: word) = found key word ps := by
  rw [← strstr_render hk hk' hw]
  refine strstr_cons_skip fun hp => ?_
  cases key with
  | nil => exact hc61 (List.cons_prefix_cons.1 hp).1.symm
  | cons x key => exact hc (by simp [(List.cons_prefix_cons.1 hp).1])

/-- A search that is asked only whether it finds something. -/
theorem found_isSome_iff {key word : Bytes} {ps : List Param} :
    (found key word ps).isSome ↔ ∃ p ∈ ps, key <:+ p.name ∧ word <+: p.value := by
  induction ps with
  | nil => simp [found]
  | cons p ps ih =>
    rw [found]
    split
    · rename_i h
      simp [h]
    · rename_i h
      rw [ih]
      simp [h]

theorem drop_key (key t : Bytes) : (key ++ 61 :: t).drop (key ++ [61]).length = t := by
  rw [List.append_cons key 61 t, List.drop_left]

/-- What is found starts with the key and its `=`. -/
theorem found_map_drop (key word : Bytes) (ps : List Param) :
    ((found key word ps).map (fun t => t.drop (key ++ [61]).length)).map (fun t => key ++ 61 :: t) = found key word ps := by
  induction ps with
  | nil => rfl
  | cons p ps ih =>
    rw [found]
    split
    · rw [Option.map_some, Option.map_some, drop_key]
    · exact ih

/-! ## The parameter of a name -/

/-- The text from the value of the parameter named `key` on. -/
def named (key : Bytes) : List Param → Option Bytes
  | [] => none
  | p :: ps => if p.name = key then some (p.value ++ renderTail ps) else named key ps

/-- The value of the parameter named `key`. -/
def valueOf (key : Bytes) (ps : List Param) : Option Bytes := (ps.find? (fun p => p.name = key)).map Param.value

/-- The first parameter whose name ends in `key`, if there is one, is the one named so. -/
def NamedFirst (key : Bytes) (ps : List Param) : Prop := ∀ p ∈ ps.find? (fun p => key.isSuffixOf p.name), p.name = key

/-- What can follow a value: nothing behind the last one, and an `&` and more behind the others. -/
inductive Behind (last : Prop) : Bytes → Prop where
  | ending (h : last) : Behind last []
  | followed (h : ¬last) (u : Bytes) (hu : u ≠ []) : Behind last (38 :: u)

theorem length_named_lt {key t : Bytes} {ps : List Param} (h : named key ps = some t) : t.length < (renderTail ps).length := by
  induction ps with
  | nil => cases h
  | cons p ps ih =>
    rw [named] at h
    simp only [renderTail, List.length_cons, List.length_append]
    split at h
    · rw [← Option.some.inj h, List.length_append]
      omega
    · have := ih h
      omega

/-- The search for a key finds the parameter of that name exactly when no other one comes first. -/
theorem found_eq_named_iff {key : Bytes} {ps : List Param} :
    found key [] ps = (named key ps).map (fun t => key ++ 61 :: t) ↔ NamedFirst key ps := by
  induction ps with
  | nil => simp [found, named, NamedFirst]
  | cons p ps ih =>
    rw [found, named, NamedFirst]
    by_cases hs : key <:+ p.name
    · have hfind : (p :: ps).find? (fun p => key.isSuffixOf p.name) = some p := List.find?_cons_of_pos (by simpa using hs)
      rw [if_pos ⟨hs, List.nil_prefix⟩, hfind]
      by_cases hn : p.name = key
      · simp [hn]
      · -- the parameter of the name, if there is one, is further on, so its text is shorter
        simp only [Option.mem_def, Option.some.injEq, forall_eq', hn, iff_false]
        intro h
        obtain ⟨t, ht, htk⟩ := Option.map_eq_some_iff.1 h.symm
        have hlt := length_named_lt ht
        have hlen := congrArg List.length (List.append_cancel_left htk)
        simp only [List.length_cons, List.length_append] at hlen
        omega
    · have hfind : (p :: ps).find? (fun p => key.isSuffixOf p.name) = ps.find? (fun p => key.isSuffixOf p.name) := by
        rw [List.find?_cons_of_neg]
        rwa [List.isSuffixOf_iff_suffix]
      have hn : p.name ≠ key := fun h => hs (h ▸ List.suffix_refl _)
      rw [if_neg (fun h => hs h.1), if_neg hn, hfind, ih]
      rfl

/-- The text of the parameter of a name is its value and what follows. -/
theorem named_eq_of_valueOf {key v : Bytes} {ps : List Param} (hnd : (ps.map Param.name).Nodup) (h : valueOf key ps = some v) :
    ∃ tail, named key ps = some (v ++ tail) ∧ Behind (ps.getLast?.map Param.name = some key) tail := by
  induction ps with
  | nil => cases h
  | cons p ps ih =>
    simp only [List.map_cons, List.nodup_cons] at hnd
    rw [valueOf] at h
    by_cases hn : p.name = key
    · rw [List.find?_cons_of_pos (by simp [hn])] at h
      obtain rfl := Option.some.inj h
      refine ⟨renderTail ps, by simp only [named, if_pos hn], ?_⟩
      cases ps with
      | nil => exact Behind.ending (by simp [hn])
      | cons q qs =>
        refine Behind.followed (fun hlast => ?_) _ (by simp)
        obtain ⟨r, hr, hrn⟩ := Option.map_eq_some_iff.1 hlast
        rw [List.getLast?_cons_cons] at hr
        exact absurd (List.mem_map.2 ⟨r, List.mem_of_getLast? hr, hrn.trans hn.symm⟩) hnd.1
    · rw [List.find?_cons_of_neg (by simp [hn])] at h
      obtain ⟨tail, ht, hb⟩ := ih hnd.2 h
      refine ⟨tail, by simp only [named, if_neg hn, ht], ?_⟩
      cases ps with
      | nil => cases h
      | cons q qs => rwa [List.getLast?_cons_cons]

theorem named_eq_none_iff {key : Bytes} {ps : List Param} : named key ps = none ↔ valueOf key ps = none := by
  induction ps with
  | nil => simp [named, valueOf]
  | cons p ps ih =>
    rw [named, valueOf]
    by_cases hn : p.name = key
    · simp [hn]
    · rw [if_neg hn, ih, List.find?_cons_of_neg (by simp [hn]), valueOf]

theorem valueOf_eq_some_iff {key v : Bytes} {ps : List Param} (hnd : (ps.map Param.name).Nodup) :
    valueOf key ps = some v ↔ ∃ p ∈ ps, p.name = key ∧ p.value = v := by
  induction ps with
  | nil => simp [valueOf]
  | cons p ps ih =>
    simp only [List.map_cons, List.nodup_cons] at hnd
    rw [valueOf]
    by_cases hn : p.name = key
    · rw [List.find?_cons_of_pos (by simp [hn])]
      constructor
      · intro h
        exact ⟨p, List.mem_cons_self, hn, Option.some.inj h⟩
      · rintro ⟨q, hq, hqn, rfl⟩
        rcases List.mem_cons.1 hq with rfl | hq
        · rfl
        · exact absurd (List.mem_map.2 ⟨q, hq, hqn.trans hn.symm⟩) hnd.1
    · rw [List.find?_cons_of_neg (by simp [hn]), ← valueOf, ih hnd.2]
      simp [hn]

/-- In whatever order the parameters come, a name has the same value. -/
theorem valueOf_perm {ps qs : List Param} (hp : ps.Perm qs) (hnd : (ps.map Param.name).Nodup) (key : Bytes) :
    valueOf key ps = valueOf key qs := by
  refine Option.ext fun v => ?_
  rw [valueOf_eq_some_iff hnd, valueOf_eq_some_iff ((hp.map Param.name).nodup_iff.1 hnd)]
  simp only [hp.mem_iff]

/-- No order of the parameters brings another one in front of the one named `key` exactly when no other name ends in `key`. -/
theorem forall_perm_namedFirst_iff {key : Bytes} {ps : List Param} :
    (∀ qs, qs.Perm ps → NamedFirst key qs) ↔ ∀ p ∈ ps, key <:+ p.name → p.name = key := by
  constructor
  · intro h p hp hs
    exact h (p :: ps.erase p) (List.perm_cons_erase hp).symm p (List.find?_cons_of_pos (by simpa using hs))
  · intro h qs hq p hp
    have hmem := hq.mem_iff.1 (List.mem_of_find?_eq_some hp)
    have hs := List.find?_some hp
    exact h p hmem (List.isSuffixOf_iff_suffix.1 hs)

/-! ## A parameter read off a request target -/

/-- The text from the value of the first parameter named `key` on. `start` says that a name starts here. -/
def textOf (key : Bytes) : Bool → Bytes → Option Bytes
  | _, [] => none
  | start, c :: t => if start && (key ++ [61]).isPrefixOf (c :: t) then some ((c :: t).drop (key.length + 1)) else textOf key (c == 38) t

/-- The query of a request target: what follows the first `?`. -/
def queryOf (target : Bytes) : Bytes := (target.dropWhile (· != 63)).drop 1

/-- The value of the parameter named `key`. -/
def lookup (key target : Bytes) : Option Bytes := (textOf key true (queryOf target)).map (·.takeWhile (· != 38))

/-- The value and what follows it. -/
theorem lookup_eq_some {key target v : Bytes} (h : lookup key target = some v) :
    ∃ tail, textOf key true (queryOf target) = some (v ++ tail) ∧ ∀ c t, tail = c :: t → c = 38 := by
  obtain ⟨t, ht, rfl⟩ := Option.map_eq_some_iff.1 h
  refine ⟨t.dropWhile (· != 38), by rw [List.takeWhile_append_dropWhile]; exact ht, ?_⟩
  intro c u hcu
  have := List.head?_dropWhile_not (· != 38) t
  simpa [hcu] using this

end Query
