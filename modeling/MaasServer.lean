import MaasServer.Migrations.OwnerDataKey
import MaasServer.Migrations.FreshKey
import MaasServer.Migrations.OwnerDataTable
import MaasServer.Migrations.KeyFix
import MaasServer.Migrations.KeyRewrite
import MaasServer.Migrations.OrderIndependence
import MaasServer.Views.Utf8
import MaasServer.Views.QueryDict
import MaasServer.Views.Constraints
import MaasServer.Views.BulkMessage
import MaasServer.Views.NodeListing
import MaasServer.Views.NodePages
import MaasServer.Views.DriversNotice
import MaasServer.Views.PowerTypes
import MaasServer.Views.Navigation
