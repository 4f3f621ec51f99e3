import Ambient.Json.Reader
import Ambient.Settings
import Ambient.Text.Split
import Ambient.Wire.TraceFormat

/-
The configuration of an engine and its document. Reading takes a record or a
list of its fields at each level, skips what it does not know, and fills in what
is missing; writing leaves out what is not set and orders keys and sets.
-/

namespace Ambient

/-- The configuration of an engine. -/
structure Config where
  settings : Settings
  traceFormat : TraceFormat
  service : Option String
  host : Option String
  hostAddress : Option String
deriving DecidableEq

namespace Config

open Json

def default : Config := ⟨Settings.empty, .w3c, none, none, none⟩

def named {α : Type} (all : List α) (name : α → String) (text : String) : Option α :=
  all.find? fun a => name a == text

def readDownMode : Reader DownMode := readChoice (named DownMode.all DownMode.name)

def readUpMode : Reader UpMode := readChoice (named UpMode.all UpMode.name)

def readTraceFormat : Reader TraceFormat := readChoice (named TraceFormat.all TraceFormat.name)

def keyFields : List (RecordField KeyPolicy) :=
  [.of PolicyField.down.name (readOptional readDownMode) fun k m => { k with down := m },
   .of PolicyField.up.name (readOptional readUpMode) fun k m => { k with up := m },
   .of PolicyField.tag.name (readOptional readBool) fun k b => { k with tag := b }]

def readKeyPolicy : Reader KeyPolicy := readRecord keyFields .unset

/-- Reads the settings of keys; the last ones of a repeated key stay. -/
def readData : Reader (Dict String KeyPolicy) :=
  readObject (fun key d s => (readKeyPolicy s).map fun p => (d.insert key p.1, p.2)) Dict.empty

def readTags : Reader (List String) :=
  readList (fun tags s => (readString s).map fun p => (tags ++ [p.1], p.2)) []

def settingsFields : List (RecordField Settings) :=
  [.of "data" readData fun s d => { s with data := d },
   .of "metric_tags" readTags fun s t => { s with metricTags := t }]

def readSettings : Reader Settings := readRecord settingsFields Settings.empty

def fields : List (RecordField Config) :=
  [.of "propagation" readSettings fun c s => { c with settings := s },
   .of "trace_format" readTraceFormat fun c f => { c with traceFormat := f },
   .of serviceKey (readOptional readString) fun c v => { c with service := v },
   .of hostKey (readOptional readString) fun c v => { c with host := v },
   .of hostAddressKey (readOptional readString) fun c v => { c with hostAddress := v }]

def read (document : String) : Except Fault Config :=
  readDocument (readRecord fields default) document.toList

/-- Parts between brackets, with commas between each two. -/
def bracketed (opening closing : Char) (parts : List (List Char)) : List Char :=
  opening :: Text.join ',' parts ++ [closing]

def member (key : String) (value : List Char) : List Char := writeText key ++ ':' :: value

def object (members : List (List Char)) : List Char := bracketed '\x7b' '\x7d' members

def writeBool (b : Bool) : List Char := if b then "true".toList else "false".toList

def writeKeyPolicy (k : KeyPolicy) : List Char :=
  object <| [k.down.map fun m => member PolicyField.down.name (writeText m.name),
    k.up.map fun m => member PolicyField.up.name (writeText m.name),
    k.tag.map fun b => member PolicyField.tag.name (writeBool b)].filterMap id

def writeSettings (s : Settings) : List Char :=
  let data := s.data.sorted.map fun e => member e.1 (writeKeyPolicy e.2)
  let tags := s.sortedTags.map writeText
  object <|
    (if data = [] then [] else [member "data" (object data)]) ++
      (if tags = [] then [] else [member "metric_tags" (bracketed '[' ']' tags)])

def write (c : Config) : String :=
  String.ofList <| object <|
    [member "propagation" (writeSettings c.settings),
     member "trace_format" (writeText c.traceFormat.name)] ++
    [c.service.map fun v => member serviceKey (writeText v),
     c.host.map fun v => member hostKey (writeText v),
     c.hostAddress.map fun v => member hostAddressKey (writeText v)].filterMap id

def identity (c : Config) : List (String × String) :=
  [c.service.map fun v => (serviceKey, v), c.host.map fun v => (hostKey, v),
   c.hostAddress.map fun v => (hostAddressKey, v)].filterMap id

end Config

end Ambient
