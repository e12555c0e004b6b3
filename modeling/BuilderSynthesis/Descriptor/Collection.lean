/-
  BuilderSynthesis.Descriptor.Collection — the collections that have a mutable counterpart, and the
  two adjustments that modifiers ask for.

  The collections are a fixed table: references to slices and to seven owned collections, and seven
  borrowing iterators with the iterators that lend mutably. `withNullableElement` makes the last
  type argument optional; `asMutableCollection` exchanges a collection for its counterpart. Both
  give a new descriptor or the reason why they do not apply.
-/

import BuilderSynthesis.Descriptor.Basic

namespace BuilderSynthesis

inductive CollectionKind where
  | list
  | set
  | collection
  | map
  | iterator
  deriving DecidableEq, Repr

namespace CollectionKind

def text : CollectionKind → String
  | list => "list"
  | set => "set"
  | collection => "collection"
  | map => "map"
  | iterator => "iterator"

def all : List CollectionKind := [list, set, collection, map, iterator]

end CollectionKind

/-- Owned collections, which become mutable when they are borrowed mutably. -/
def borrowedCollections : List (String × CollectionKind) :=
  [("Vec", .list), ("VecDeque", .list), ("LinkedList", .list), ("HashSet", .set), ("BTreeSet", .set),
   ("HashMap", .map), ("BTreeMap", .map)]

/-- Borrowing iterators by their module, with the iterator that lends mutably. -/
def borrowingIterators : List (String × String × String) :=
  [("slice", "Iter", "IterMut"), ("vec_deque", "Iter", "IterMut"), ("linked_list", "Iter", "IterMut"),
   ("hash_map", "Iter", "IterMut"), ("btree_map", "Iter", "IterMut"), ("hash_map", "Values", "ValuesMut"),
   ("btree_map", "Values", "ValuesMut")]

/-- The place of a descriptor in the table of collections. -/
inductive CollectionForm where
  | borrowed (kind : CollectionKind) (mutable : Bool)
  /-- With the path of the iterator that lends mutably. -/
  | iterator (counterpart : String)
  | mutableIterator
  deriving DecidableEq, Repr

def CollectionForm.kind : CollectionForm → CollectionKind
  | borrowed kind _ => kind
  | iterator _ | mutableIterator => .iterator

/-- A path that names a borrowing iterator of the table. -/
def iteratorForm? (path : String) : Option CollectionForm :=
  match Text.segmentsFromEnd path with
  | name :: module :: _ =>
    (borrowingIterators.filter (·.1 == module)).findSome? fun (_, reading, writing) =>
      if name == reading then
        some (.iterator (String.ofList (path.toList.take (path.length - name.length)) ++ writing))
      else if name == writing then some .mutableIterator
      else none
  | _ => none

namespace Descriptor

/-- The kind of collection that a reference to this borrows. -/
def borrowedKind? (referent : Descriptor) : Option CollectionKind :=
  match referent.base with
  | .slice => some .collection
  | .named path => borrowedCollections.lookup (Text.lastSegment path)
  | _ => none

/-- The form of a collection; being optional does not matter. -/
def collectionForm? (d : Descriptor) : Option CollectionForm :=
  match d.base with
  | .reference _ mutable =>
    (d.arguments.head?.bind borrowedKind?).map fun kind => .borrowed kind (mutable || d.mutableCollection)
  | .named path => iteratorForm? path
  | _ => none

def collectionKind? (d : Descriptor) : Option CollectionKind := d.collectionForm?.map CollectionForm.kind

/-! ## Adjustments -/

/-- Why an adjustment does not apply, with the descriptor it was asked for. -/
inductive AdjustmentError where
  | noTypeArgument (found : String)
  | notACollection (found : String)
  deriving DecidableEq, Repr

def AdjustmentError.message : AdjustmentError → String
  | noTypeArgument found =>
    "`nullable_element` needs a type with a generic type argument, found `" ++ found ++ "`"
  | notACollection found =>
    "`mutable` applies only to read-only collections (" ++
      ", ".intercalate (CollectionKind.all.map CollectionKind.text) ++ "), found `" ++ found ++ "`"

/-- Makes the last argument that is a type optional, if there is one. -/
def nullableLast : List Descriptor → Option (List Descriptor)
  | [] => none
  | d :: rest =>
    match nullableLast rest with
    | some adjusted => some (d :: adjusted)
    | none => if d.isLifetime then none else some (d.asNullable :: rest)

/-- Makes the element optional, if there is one. A reference passes this on to what it
refers to. -/
def nullableElement? : Descriptor → Option Descriptor
  | mk (.reference lifetime mutable) (referent :: _) n m =>
    referent.nullableElement?.map fun adjusted => mk (.reference lifetime mutable) [adjusted] n m
  | mk (.reference _ _) [] _ _ => none
  | mk base arguments n m => (nullableLast arguments).map fun adjusted => mk base adjusted n m

def withNullableElement (d : Descriptor) : Except AdjustmentError Descriptor :=
  match d.nullableElement? with
  | some adjusted => .ok adjusted
  | none => .error (.noTypeArgument d.text)

/-- Exchanges a read-only collection for its mutable counterpart. One that is mutable already stays
as it is. -/
def asMutableCollection (d : Descriptor) : Except AdjustmentError Descriptor :=
  match d.collectionForm? with
  | none => .error (.notACollection d.text)
  | some (.borrowed _ true) | some .mutableIterator => .ok d
  | some (.borrowed _ false) => .ok (mk d.base d.arguments d.nullable true)
  | some (.iterator counterpart) => .ok (mk (.named counterpart) d.arguments d.nullable true)

end Descriptor

end BuilderSynthesis
