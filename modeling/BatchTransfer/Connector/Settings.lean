import BatchTransfer.Connector.SaveMode
import BatchTransfer.Options.Schema

/-!
# Settings of connectors

A connector takes its settings from validated options. Whole numbers must fit the width of the
setting that holds them; among those that do not, the first in the order of the keys is reported.
After that, numbers must lie in their ranges and texts must have a permitted length.
-/

namespace BatchTransfer

open BatchTransfer.Decimal

/-- A setting that is a whole number. -/
structure NumberSetting where
  key : String
  width : Width
  range : Range

/-- A setting that is a text, with the least and the greatest number of its characters. -/
structure TextSetting where
  key : String
  least : Nat
  greatest : Option Nat

/-- The settings of a connector that options are checked against. -/
structure Settings where
  numbers : List NumberSetting
  texts : List TextSetting

namespace Settings

/-- The error about a number that does not fit its setting. -/
def misfit? (s : Settings) (o : ValidOptions) (entry : String × OptionValue) :
    Option OptionsError :=
  match s.numbers.find? (·.key == entry.1), entry.2.integer? with
  | some setting, some n =>
      if setting.width.range.contains n then none
      else some (o.invalid "options" (.doesNotFit n setting.width))
  | _, _ => none

/-- The error about a number out of its range. -/
def outOfRange? (o : ValidOptions) (setting : NumberSetting) : Option OptionsError :=
  match o.integer? setting.key with
  | some n =>
      if setting.range.contains n then none else some (o.invalid setting.key .outOfRange)
  | none => none

/-- Whether a text has a permitted length. -/
def TextSetting.permits (setting : TextSetting) (s : String) : Bool :=
  setting.least ≤ s.length && setting.greatest.all (s.length ≤ ·)

/-- The error about a text without a permitted length. -/
def badLength? (o : ValidOptions) (setting : TextSetting) : Option OptionsError :=
  match o.string? setting.key with
  | some s => if TextSetting.permits setting s then none else some (o.invalid setting.key .badLength)
  | none => none

/-- Checks options against the settings. -/
def check (s : Settings) (o : ValidOptions) : Except OptionsError Unit :=
  match o.values.entries.findSome? (s.misfit? o) with
  | some e => .error e
  | none =>
      match s.numbers.findSome? (outOfRange? o) with
      | some e => .error e
      | none =>
          match s.texts.findSome? (badLength? o) with
          | some e => .error e
          | none => .ok ()

end Settings

/-- A number of rows in a batch: from one to a million. -/
def batchSizeSetting : NumberSetting := ⟨"batchSize", .size, ⟨1, 1000000⟩⟩

/-- A text with at least one character. -/
def nonEmptySetting (key : String) : TextSetting := ⟨key, 1, none⟩

namespace ValidOptions

/-- The whole number from zero on under a key. -/
def natural (o : ValidOptions) (key : String) : Nat := ((o.integer? key).getD 0).toNat

/-- The text under a key. -/
def text (o : ValidOptions) (key : String) : String := (o.string? key).getD ""

/-- The truth value under a key. -/
def flag (o : ValidOptions) (key : String) : Bool := (o.boolean? key).getD false

/-- The save mode under its key. -/
def saveMode (o : ValidOptions) : SaveMode :=
  ((o.string? "saveMode").bind SaveMode.ofName?).getD .append

end ValidOptions

end BatchTransfer
