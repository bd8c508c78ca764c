import WireSurge.Core.Secrets

/-!
# Requests as they come

A request that comes from JSON, from YAML or from the expansion of a run
specification (`Obtained`) is `Normal`: it is valid, and reading it again leaves
it as it is.
-/

namespace WireSurge.Core

open Expanding (Gives gives_bind gives_foldlM gives_pure)
open Str (toAsciiLowercase toAsciiLowercase_idem toAsciiUppercase toAsciiUppercase_idem)

/-- A request as it comes out of a reader. -/
def RequestSpec.normalized (r : RequestSpec) : RequestSpec :=
  { r with method := toAsciiUppercase r.method, headers := lowerKeys r.headers }

structure RequestSpec.Normal (r : RequestSpec) : Prop where
  valid : r.validate = .ok ()
  normalized : r.normalized = r

/-- Where requests come from. -/
inductive RequestSpec.Obtained (r : RequestSpec) : Prop
  | json {parse : Parser RequestSpecInput} {millis : Nat} {input : String} :
    fromJson parse millis input = .ok r → Obtained r
  | yaml {parse : Parser RequestSpecInput} {millis : Nat} {input : String} :
    fromYaml parse millis input = .ok r → Obtained r
  | expanded {spec : RunSpec} {scope scope' : Scope} : Gives spec.expand scope r scope' → Obtained r

/-! ## Keys in lower case -/

def LowerKeys (m : BTreeMap String) : Prop := ∀ key ∈ m, toAsciiLowercase key = key

theorem LowerKeys.empty : LowerKeys ∅ := fun _ h => absurd h Std.ExtTreeMap.not_mem_empty

theorem LowerKeys.insert {m : BTreeMap String} (h : LowerKeys m) (key value : String) :
    LowerKeys (m.insert (toAsciiLowercase key) value) := by
  intro k hk
  rcases Std.ExtTreeMap.mem_insert.mp hk with he | hk
  · rw [← Std.LawfulEqCmp.eq_of_compare he, toAsciiLowercase_idem]
  · exact h k hk

theorem lowerKeys_lower (m : BTreeMap String) : LowerKeys (lowerKeys m) := by
  rw [lowerKeys]
  exact List.foldlRecOn m.toList _ LowerKeys.empty fun _ h entry _ => h.insert entry.1 entry.2

theorem LowerKeys.lowerKeys_eq {m : BTreeMap String} (h : LowerKeys m) : lowerKeys m = m := by
  refine Eq.trans ?_ (foldl_insert_toList m)
  rw [lowerKeys]
  refine List.foldl_ext _ _ _ fun t entry hentry => ?_
  have hvalue : m[entry.1]? = some entry.2 := Std.ExtTreeMap.mem_toList_iff_getElem?_eq_some.mp hentry
  have hmem : entry.1 ∈ m := Std.ExtTreeMap.mem_iff_isSome_getElem?.mpr (Option.isSome_of_eq_some hvalue)
  simp only [h _ hmem]

theorem expandHeaders_lower {headers : List (String × String)} {scope scope' : Scope} {m : BTreeMap String}
    (h : Gives (RunSpec.expandHeaders headers) scope m scope') : LowerKeys m := by
  refine gives_foldlM (fun hm hone => ?_) LowerKeys.empty h
  obtain ⟨value, _, -, hone⟩ := gives_bind hone
  obtain rfl := gives_pure hone
  exact hm.insert _ _

/-! ## Where requests come from -/

namespace RequestSpec

variable {r : RequestSpec}

theorem normal_of_intoRequest {input : RequestSpecInput} {millis : Nat} {requireId : Bool}
    (h : input.intoRequest millis requireId = .ok r) : Normal r := by
  obtain ⟨name, -, h⟩ := bind_inv h
  obtain ⟨url, -, h⟩ := bind_inv h
  have hid : ∃ id, (do
      let request : RequestSpec :=
        { id, name, url, method := toAsciiUppercase (input.method.getD "GET"), headers := lowerKeys input.headers,
          body := input.body }
      request.validate
      return request) = .ok r := by
    cases requireId with
    | true =>
      obtain ⟨id, -, h⟩ := bind_inv h
      exact ⟨id, h⟩
    | false => exact ⟨_, h⟩
  obtain ⟨id, h⟩ := hid
  obtain ⟨_, hvalid, h⟩ := bind_inv h
  cases h
  refine ⟨hvalid, ?_⟩
  rw [normalized, toAsciiUppercase_idem, (lowerKeys_lower _).lowerKeys_eq]

theorem normal_of_expand {spec : RunSpec} {scope scope' : Scope} (h : Gives spec.expand scope r scope') :
    Normal r := by
  obtain ⟨method, _, -, hmethod, ⟨_, _, hheaders⟩, hvalid⟩ := RunSpec.expand_gives h
  refine ⟨hvalid, ?_⟩
  rw [normalized, (expandHeaders_lower hheaders).lowerKeys_eq, hmethod, toAsciiUppercase_idem, ← hmethod]

theorem Obtained.normal (h : Obtained r) : Normal r := by
  cases h with
  | json h =>
    unfold fromJson at h
    split at h
    · exact normal_of_intoRequest h
    · cases h
  | yaml h =>
    unfold fromYaml at h
    split at h
    · exact normal_of_intoRequest h
    · cases h
  | expanded h => exact normal_of_expand h

/-- Under another valid id. -/
theorem Normal.withId {id : String} (h : Normal r) (hid : validateId id = .ok ()) : Normal { r with id } := by
  refine ⟨?_, ?_⟩
  · have hvalid := validate_eq_ok.mp h.valid
    exact validate_eq_ok.mpr ⟨hid, hvalid.2⟩
  · exact congrArg (fun r : RequestSpec => { r with id }) h.normalized

theorem Normal.validId (h : Normal r) : validateId r.id = .ok () := (validate_eq_ok.mp h.valid).1

end RequestSpec

end WireSurge.Core
