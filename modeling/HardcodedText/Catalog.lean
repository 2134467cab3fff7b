import HardcodedText.Table

/-!
The catalog of widgets whose arguments hold user-facing text, with the parameters to look for.
-/

namespace HardcodedText

structure WidgetPattern where
  widget : Text
  params : List Text
  deriving DecidableEq, Repr

/-- The entries with trimmed names, without blank names and without those of an earlier entry or
listed in `seen`. -/
def normalizeFrom (seen : List Text) : List WidgetPattern → List WidgetPattern
  | [] => []
  | entry :: later =>
      let name := entry.widget.trim
      if name.isEmpty || seen.contains name then normalizeFrom seen later
      else ⟨name, entry.params⟩ :: normalizeFrom (name :: seen) later

def normalizeCatalog (entries : List WidgetPattern) : List WidgetPattern :=
  normalizeFrom [] entries

inductive CatalogSource
  | absent
  | table (rows : Table (List Text))
  | list (entries : List WidgetPattern)
  deriving DecidableEq, Repr

def CatalogSource.catalog : CatalogSource → List WidgetPattern
  | absent => []
  | table rows => normalizeCatalog (rows.map fun (name, params) => ⟨name, params⟩)
  | list entries => normalizeCatalog entries

def defaultCatalogRows : List (String × List String) := [
  ("Text", ["", "data"]),
  ("RichText", ["text"]),
  ("Tooltip", ["message"]),
  ("SnackBar", ["content"]),
  ("AppBar", ["title"]),
  ("ElevatedButton", ["child"]),
  ("TextButton", ["child"]),
  ("OutlinedButton", ["child"]),
  ("IconButton", ["tooltip"]),
  ("FloatingActionButton", ["tooltip", "child"]),
  ("AlertDialog", ["title", "content"]),
  ("SimpleDialog", ["title"]),
  ("BottomSheet", [""]),
  ("ListTile", ["title", "subtitle", "leading", "trailing"]),
  ("BottomNavigationBarItem", ["label", "tooltip"]),
  ("Tab", ["text", "child"]),
  ("TabBar", [""]),
  ("Drawer", ["child"]),
  ("Card", ["child"]),
  ("Chip", ["label"]),
  ("Badge", ["label"]),
  ("TextField", [""]),
  ("TextFormField", [""]),
  ("InputDecoration", ["labelText", "hintText", "helperText", "errorText"]),
  ("DropdownButton", ["hint"]),
  ("DropdownMenuItem", ["child"]),
  ("LinearProgressIndicator", [""]),
  ("CircularProgressIndicator", [""]),
  ("CupertinoButton", ["child"]),
  ("CupertinoAlertDialog", ["title", "content"]),
  ("CupertinoActionSheet", ["title", "message"]),
  ("CupertinoNavigationBar", ["middle"]),
  ("CupertinoTextField", ["placeholder"]),
  ("Stepper", [""]),
  ("ExpansionTile", ["title"]),
  ("ExpansionPanel", ["headerBuilder"]),
  ("PopupMenuButton", ["tooltip"]),
  ("PopupMenuItem", ["child"]),
  ("DataTable", [""]),
  ("DataColumn", ["label"]),
  ("DataCell", [""])]

def defaultCatalog : List WidgetPattern :=
  defaultCatalogRows.map fun (name, params) => ⟨name.toList, params.map String.toList⟩

end HardcodedText
