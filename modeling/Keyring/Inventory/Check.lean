import Keyring.Inventory.Basic

/-!
# Consistency

The problems of an inventory that was edited by hand: names given twice and
references to records that are not there.
-/

namespace Keyring.Inventory

/-- A rotation link to a key that is not there. -/
def linkProblems (inv : Inventory) (k : Key) (field : String) (link : Option String) : List String :=
  match link with
  | none => []
  | some target =>
    if (inv.findKey? target).isSome then []
    else [s!"key '{k.name}' has {field} '{target}' which is not in the inventory"]

def keyProblems (inv : Inventory) (earlier : List Key) (k : Key) : List String :=
  (if earlier.any (·.name = k.name) then [s!"duplicate key name '{k.name}'"] else [])
  ++ inv.linkProblems k "rotated_from" k.rotatedFrom
  ++ inv.linkProblems k "rotated_to" k.rotatedTo

def hostProblems (inv : Inventory) (earlier : List Host) (h : Host) : List String :=
  (if earlier.any (·.label = h.label) then [s!"duplicate host alias '{h.label}'"] else [])
  ++ match h.identity with
    | none => []
    | some identity =>
      if (inv.findKey? identity).isSome then []
      else [s!"host '{h.label}' uses identity '{identity}' which is not in the inventory"]

def deploymentProblems (inv : Inventory) (earlier : List Deployment) (d : Deployment) :
    List String :=
  (if (inv.findKey? d.key).isSome then []
    else [s!"deployment of unknown key '{d.key}' to '{d.host}'"])
  ++ (if (inv.findHost? d.host).isSome then []
    else [s!"deployment of '{d.key}' to unknown host '{d.host}'"])
  ++ (if earlier.any (·.joins d.key d.host) then
    [s!"duplicate deployment of '{d.key}' to '{d.host}'"] else [])

/-- What each item of a list has to say, given the items before it. -/
def gather {α : Type} (say : List α → α → List String) : List α → List α → List String
  | _, [] => []
  | earlier, a :: rest => say earlier a ++ gather say (earlier ++ [a]) rest

/-- Every problem, the keys' first, then the hosts', then the deployments'. -/
def check (inv : Inventory) : List String :=
  gather inv.keyProblems [] inv.keys ++ gather inv.hostProblems [] inv.hosts
    ++ gather inv.deploymentProblems [] inv.deployments

end Keyring.Inventory
