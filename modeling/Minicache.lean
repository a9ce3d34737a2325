import Minicache.Shfs.Format
import Minicache.Shfs.Alist
import Minicache.Shfs.Btable
import Minicache.Shfs.Vol
import Minicache.Shfs.Mount
import Minicache.Shfs.Addfile
import Minicache.Shfs.Aktionen
import Minicache.Shfs.Lauf
import Minicache.Dlist.Zeiger
import Minicache.Dlist.Verfeinerung
import Minicache.Dlist.Verknuepft
import Minicache.Shfs.Schleifen
import Minicache.Shfs.Ausgang
import Minicache.Shfs.Invariante
import Minicache.Shfs.Bestand
import Minicache.Shfs.Mitglieder
import Minicache.Shfs.Argumente
import Minicache.Shfs.Haupt
import Minicache.Shfs.Rundreise
import Minicache.Shfs.Standard
import Minicache.Shfs.Belegung
import Minicache.Shfs.Haltbarkeit
import Minicache.Shfs.Speicher
import Minicache.Shfs.Werkzeug
