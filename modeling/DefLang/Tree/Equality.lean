import DefLang.Tree.Basic

namespace DefLang

namespace TypeExpr

mutual

def same : TypeExpr → TypeExpr → Bool
  | named name resolved, named name' resolved' => name == name' && sameResolved resolved resolved'
  | function argument result, function argument' result' =>
    argument.same argument' && result.same result'
  | struct fields, struct fields' => sameFields fields fields'
  | _, _ => false

def sameResolved : Option TypeExpr → Option TypeExpr → Bool
  | none, none => true
  | some type, some type' => type.same type'
  | _, _ => false

def sameFields : List (Field TypeExpr) → List (Field TypeExpr) → Bool
  | [], [] => true
  | ⟨name, type⟩ :: fields, ⟨name', type'⟩ :: fields' =>
    name == name' && type.same type' && sameFields fields fields'
  | _, _ => false

end

mutual

theorem same_iff (a b : TypeExpr) : a.same b ↔ a = b := by
  cases a <;> cases b <;> simp [same, same_iff, sameResolved_iff, sameFields_iff]

theorem sameResolved_iff (a b : Option TypeExpr) : sameResolved a b ↔ a = b := by
  cases a <;> cases b <;> simp [sameResolved, same_iff]

theorem sameFields_iff (a b : List (Field TypeExpr)) : sameFields a b ↔ a = b := by
  match a, b with
  | [], [] => simp [sameFields]
  | [], _ :: _ => simp [sameFields]
  | _ :: _, [] => simp [sameFields]
  | ⟨n, t⟩ :: fs, ⟨n', t'⟩ :: fs' => simp [sameFields, same_iff, sameFields_iff, and_assoc]

end

instance : DecidableEq TypeExpr := fun a b => decidable_of_iff _ (same_iff a b)

end TypeExpr

namespace Node

mutual

def same : Node → Node → Bool
  | root nodes, root nodes' => sameNodes nodes nodes'
  | atom text, atom text' => text == text'
  | integer text, integer text' => text == text'
  | float text, float text' => text == text'
  | string text, string text' => text == text'
  | definitionEnd, definitionEnd => true
  | functionReturn value, functionReturn value' => value.same value'
  | moduleDefinition name body, moduleDefinition name' body' =>
    name == name' && sameNodes body body'
  | functionDefinition name signature body, functionDefinition name' signature' body' =>
    name == name' && signature == signature' && sameNodes body body'
  | _, _ => false

def sameNodes : List Node → List Node → Bool
  | [], [] => true
  | node :: nodes, node' :: nodes' => node.same node' && sameNodes nodes nodes'
  | _, _ => false

end

mutual

theorem same_iff (a b : Node) : a.same b ↔ a = b := by
  cases a <;> cases b <;> simp [same, same_iff, sameNodes_iff, and_assoc]

theorem sameNodes_iff (a b : List Node) : sameNodes a b ↔ a = b := by
  match a, b with
  | [], [] => simp [sameNodes]
  | [], _ :: _ => simp [sameNodes]
  | _ :: _, [] => simp [sameNodes]
  | node :: nodes, node' :: nodes' => simp [sameNodes, same_iff, sameNodes_iff]

end

instance : DecidableEq Node := fun a b => decidable_of_iff _ (same_iff a b)

end Node

end DefLang
