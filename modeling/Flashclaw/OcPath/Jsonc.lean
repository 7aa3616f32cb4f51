import Flashclaw.Lib.Json
import Flashclaw.OcPath.Segments

/-!
# JSONC values

The value trees of `jsonc/ast.ts`, the resolver of `jsonc/resolve-value.ts`, and
the writer of `jsonl/emit.ts`.  A node of a tree is told by its address, the
indices of the children that lead to it.
-/

open Utf16

/-- `JsoncValue`; an entry of an object is its key and value. -/
inductive JsoncValue where
  | object (entries : List (Utf16 × JsoncValue))
  | array (items : List JsoncValue)
  | string (value : Utf16)
  | number (value : Number)
  | boolean (value : Bool)
  | null

namespace JsoncValue

theorem valueInduction {motive : JsoncValue → Prop}
    (object : ∀ entries : List (Utf16 × JsoncValue), (∀ e ∈ entries, motive e.2) →
      motive (.object entries))
    (array : ∀ items, (∀ v ∈ items, motive v) → motive (.array items))
    (string : ∀ s, motive (.string s)) (number : ∀ n, motive (.number n))
    (boolean : ∀ b, motive (.boolean b)) (null : motive .null) (v : JsoncValue) : motive v := by
  refine JsoncValue.rec (motive_1 := motive) (motive_2 := fun l => ∀ e ∈ l, motive e.2)
    (motive_3 := fun l => ∀ v ∈ l, motive v) (motive_4 := fun e => motive e.2)
    object array string number boolean null ?_ ?_ ?_ ?_ ?_ v
  · intro e he
    cases he
  · intro e l he hl d hd
    rcases List.mem_cons.mp hd with rfl | hd
    · exact he
    · exact hl d hd
  · intro v hv
    cases hv
  · intro v l hv hl w hw
    rcases List.mem_cons.mp hw with rfl | hw
    · exact hv
    · exact hl w hw
  · intro key v hv
    exact hv

def children : JsoncValue → List JsoncValue
  | .object entries => entries.map Prod.snd
  | .array items => items
  | _ => []

def child? (v : JsoncValue) (i : ℕ) : Option JsoncValue := v.children[i]?

def node? (v : JsoncValue) : List ℕ → Option JsoncValue
  | [] => some v
  | i :: address => (v.child? i).bind fun child => child.node? address

/-- The tree with another child; the keys stay. -/
def setChild (v : JsoncValue) (i : ℕ) (child : JsoncValue) : JsoncValue :=
  match v with
  | .object entries => .object (entries.modify i fun e => (e.1, child))
  | .array items => .array (items.set i child)
  | v => v

/-- The tree with another node at an address. -/
def replaceNode (v : JsoncValue) (new : JsoncValue) : List ℕ → JsoncValue
  | [] => new
  | i :: address =>
    match v.child? i with
    | none => v
    | some child => v.setChild i (child.replaceNode new address)

open OcPath

def keys (entries : List (Utf16 × JsoncValue)) : List Utf16 := entries.map Prod.fst

/-- `positionalForJsonc`. -/
def positionalForJsonc (node : JsoncValue) (seg : Utf16) : Option Utf16 :=
  match node with
  | .object entries => resolvePositionalSeg seg ⟨false, (keys entries).length, keys entries⟩
  | .array items => resolvePositionalSeg seg ⟨true, items.length, []⟩
  | _ => none

end JsoncValue

open JsoncValue OcPath

/-- `JsoncValueOcPathMatch`, with the address of the node that is returned. -/
inductive JsoncValueOcPathMatch where
  | value (node : JsoncValue) (path : List Utf16) (address : List ℕ)
  | objectEntry (node : Utf16 × JsoncValue) (path : List Utf16) (address : List ℕ)

namespace JsoncValueOcPathMatch

def node : JsoncValueOcPathMatch → JsoncValue
  | .value node _ _ => node
  | .objectEntry node _ _ => node.2

def address : JsoncValueOcPathMatch → List ℕ
  | .value _ _ address => address
  | .objectEntry _ _ address => address

end JsoncValueOcPathMatch

/-- The loop of `resolveJsoncValueOcPath`: the current node, the last entry, the segments walked
and the address. -/
def resolveJsoncValueFrom (current : JsoncValue) (lastEntry : Option (Utf16 × JsoncValue))
    (walked : List Utf16) (address : List ℕ) : List Utf16 → Option JsoncValueOcPathMatch
  | [] =>
    match lastEntry with
    | some entry => some (.objectEntry entry walked address)
    | none => some (.value current walked address)
  | seg :: segments =>
    if seg.length = 0 then none
    else
      let seg :=
        if isPositionalSeg seg then (positionalForJsonc current seg).getD seg else seg
      match current with
      | .object entries =>
        match entries.findIdx? (fun e => e.1 = seg) with
        | none => none
        | some i =>
          match entries[i]? with
          | none => none
          | some entry =>
            resolveJsoncValueFrom entry.2 (some entry) (walked ++ [seg]) (address ++ [i]) segments
      | .array items =>
        match parseArrayIndexSegment seg items.length with
        | none => none
        | some idx =>
          match items[idx]? with
          | none => none
          | some item =>
            resolveJsoncValueFrom item none (walked ++ [seg]) (address ++ [idx]) segments
      | _ => none

def resolveJsoncValueOcPath (root : JsoncValue) (segments : List Utf16) :
    Option JsoncValueOcPathMatch :=
  resolveJsoncValueFrom root none [] [] segments

namespace JsoncValue

/-- The child that the resolver walks to. -/
def resolvedChild (current : JsoncValue) (seg : Utf16) : Option ℕ :=
  if seg.length = 0 then none
  else
    let seg := if isPositionalSeg seg then (positionalForJsonc current seg).getD seg else seg
    match current with
    | .object entries => entries.findIdx? (fun e => e.1 = seg)
    | .array items => parseArrayIndexSegment seg items.length
    | _ => none

/-- The address that segments lead to, with a reading of one segment at a node. -/
def walk (read : JsoncValue → Utf16 → Option ℕ) (v : JsoncValue) : List Utf16 → Option (List ℕ)
  | [] => some []
  | seg :: segments =>
    match read v seg with
    | none => none
    | some i =>
      match v.child? i with
      | none => none
      | some child => (child.walk read segments).map (i :: ·)

theorem walk_eq (read : JsoncValue → Utf16 → Option ℕ) (v : JsoncValue) (seg : Utf16)
    (segments : List Utf16) : v.walk read (seg :: segments) = (read v seg).bind fun i =>
      (v.child? i).bind fun child => (child.walk read segments).map (i :: ·) := by
  rw [walk]
  cases read v seg with
  | none => rfl
  | some i =>
    cases hchild : v.child? i <;> simp [hchild]

theorem child?_object (entries : List (Utf16 × JsoncValue)) (i : ℕ) :
    (object entries).child? i = entries[i]?.map Prod.snd := List.getElem?_map

theorem child?_array (items : List JsoncValue) (i : ℕ) : (array items).child? i = items[i]? := rfl

end JsoncValue

/-- The loop walks where `walk` goes. -/
theorem address_resolveJsoncValueFrom (current : JsoncValue)
    (lastEntry : Option (Utf16 × JsoncValue)) (walked segments : List Utf16) (address : List ℕ) :
    (resolveJsoncValueFrom current lastEntry walked address segments).map (·.address) =
      (current.walk resolvedChild segments).map (address ++ ·) := by
  induction segments generalizing current lastEntry walked address with
  | nil => cases lastEntry <;> simp [resolveJsoncValueFrom, walk, JsoncValueOcPathMatch.address]
  | cons seg segments ih =>
    rw [walk_eq]
    unfold resolveJsoncValueFrom
    rw [resolvedChild]
    by_cases hempty : seg.length = 0
    · rw [if_pos hempty, if_pos hempty]
      rfl
    · rw [if_neg hempty, if_neg hempty]
      cases current with
      | object entries =>
        dsimp only
        split
        · rename_i hi
          rw [hi]
          rfl
        · rename_i i hi
          rw [hi, Option.bind_some, child?_object]
          cases entries[i]? with
          | none => rfl
          | some entry => simp [ih, Function.comp_def]
      | array items =>
        dsimp only
        split
        · rename_i hi
          rw [hi]
          rfl
        · rename_i i hi
          rw [hi, Option.bind_some, child?_array]
          cases items[i]? with
          | none => rfl
          | some item => simp [ih, Function.comp_def]
      | _ => rfl

/-- What is returned is the node at its address. -/
theorem node_resolveJsoncValueFrom {current : JsoncValue} {lastEntry : Option (Utf16 × JsoncValue)}
    {walked segments : List Utf16} {address : List ℕ} {m : JsoncValueOcPathMatch}
    (hlast : ∀ entry, lastEntry = some entry → entry.2 = current)
    (h : resolveJsoncValueFrom current lastEntry walked address segments = some m) :
    ∃ rest, m.address = address ++ rest ∧ current.node? rest = some m.node := by
  induction segments generalizing current lastEntry walked address with
  | nil =>
    refine ⟨[], ?_⟩
    cases lastEntry with
    | none =>
      obtain rfl := Option.some.inj h
      exact ⟨(List.append_nil _).symm, rfl⟩
    | some entry =>
      obtain rfl := Option.some.inj h
      exact ⟨(List.append_nil _).symm, congrArg some (hlast entry rfl).symm⟩
  | cons seg segments ih =>
    unfold resolveJsoncValueFrom at h
    split at h
    · cases h
    · cases current with
      | object entries =>
        dsimp only at h
        split at h
        · cases h
        · rename_i i _
          split at h
          · cases h
          · rename_i entry hentry
            obtain ⟨rest, haddress, hnode⟩ := ih (by rintro e ⟨⟩; rfl) h
            refine ⟨i :: rest, by rw [haddress, List.append_assoc]; rfl, ?_⟩
            rw [node?, child?_object, hentry]
            exact hnode
      | array items =>
        dsimp only at h
        split at h
        · cases h
        · rename_i i _
          split at h
          · cases h
          · rename_i item hitem
            obtain ⟨rest, haddress, hnode⟩ := ih (by rintro e ⟨⟩) h
            refine ⟨i :: rest, by rw [haddress, List.append_assoc]; rfl, ?_⟩
            rw [node?, child?_array, hitem]
            exact hnode
      | _ => cases h

theorem resolveJsoncValueOcPath_address (root : JsoncValue) (segments : List Utf16) :
    (resolveJsoncValueOcPath root segments).map (·.address) =
      root.walk resolvedChild segments := by
  have h := address_resolveJsoncValueFrom root none [] segments []
  rw [show (fun x : List ℕ => ([] : List ℕ) ++ x) = id from rfl, Option.map_id] at h
  exact h

theorem node?_address_resolveJsoncValueOcPath {root : JsoncValue} {segments : List Utf16}
    {m : JsoncValueOcPathMatch} (h : resolveJsoncValueOcPath root segments = some m) :
    root.node? m.address = some m.node := by
  obtain ⟨rest, haddress, hnode⟩ := node_resolveJsoncValueFrom (by rintro entry ⟨⟩) h
  rw [haddress]
  exact hnode
